/-!
Text set in columns: blanks to the right or to the left of a text, zeros before a number.
A text that is already wide enough is left alone.
-/

namespace AdaptiveVM.Text

/-- `n` copies of a character. -/
def fill (c : Char) (n : Nat) : String := String.ofList (List.replicate n c)

/-- The text at the left edge of a column. -/
def alignLeft (width : Nat) (s : String) : String := s ++ fill ' ' (width - s.length)

/-- The text at the right edge of a column. -/
def alignRight (width : Nat) (s : String) : String := fill ' ' (width - s.length) ++ s

/-- A number with zeros before it. -/
def zeroPadded (width n : Nat) : String :=
  let digits := toString n
  fill '0' (width - digits.length) ++ digits

/-- A position in a listing: four digits at least. -/
def position (n : Nat) : String := zeroPadded 4 n

/-- Lower-case hexadecimal digits. -/
def hex (n : Nat) : String := String.ofList (Nat.toDigits 16 n)

end AdaptiveVM.Text
