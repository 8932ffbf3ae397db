import AdaptiveVM.Text.Column

/-!
The text of a duration: two places after the point, in the largest unit that keeps the whole
part above zero.
-/

namespace AdaptiveVM.Text

/-- A number of hundredths. -/
def hundredths (n : Nat) : String := toString (n / 100) ++ "." ++ zeroPadded 2 (n % 100)

/-- A duration given in nanoseconds. -/
def duration (nanos : Nat) : String :=
  if nanos < 1000 then hundredths (nanos * 100) ++ "ns"
  else if nanos < 1000000 then hundredths ((nanos + 5) / 10) ++ "µs"
  else if nanos < 1000000000 then hundredths ((nanos + 5000) / 10000) ++ "ms"
  else hundredths ((nanos + 5000000) / 10000000) ++ "s"

end AdaptiveVM.Text
