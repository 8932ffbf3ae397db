import AdaptiveVM.Decimal.Shortest
import AdaptiveVM.Text.Column

/-!
The text of a double in positional notation, never with an exponent: the fewest digits that
read back, or, for a whole number that is to show its point, all of its digits and one zero
after the point.
-/

namespace AdaptiveVM.Decimal

/-- Drops the zeros at the end of a fraction's digits. -/
def trimZeros (digits : List Char) : List Char :=
  (digits.reverse.dropWhile (· = '0')).reverse

/-- `digits * 10 ^ exponent` written out. -/
def Numeral.positional (d : Numeral) : String :=
  let written := (toString d.digits).toList
  if 0 ≤ d.exponent then
    String.ofList (written ++ List.replicate d.exponent.toNat '0')
  else
    let places := (-d.exponent).toNat
    let padded := List.replicate (places + 1 - written.length) '0' ++ written
    let whole := padded.take (padded.length - places)
    let fraction := trimZeros (padded.drop (padded.length - places))
    if fraction.isEmpty then String.ofList whole
    else String.ofList (whole ++ '.' :: fraction)

/-- A sign in front of a text. -/
def signed (negative : Bool) (s : String) : String := if negative then "-" ++ s else s

/-- The fewest digits; whole numbers without a point. -/
def plain (x : Float) : String :=
  match read x with
  | .nan => "NaN"
  | .infinite negative => signed negative "inf"
  | .finite b => signed b.negative b.shortest.positional

/-- Like `plain`, but a whole number is written exactly and keeps one place after the point. -/
def pointed (x : Float) : String :=
  match read x with
  | .finite b =>
    if b.isIntegral then signed b.negative (toString b.whole ++ ".0")
    else plain x
  | _ => plain x

end AdaptiveVM.Decimal
