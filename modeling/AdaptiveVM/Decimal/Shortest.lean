/-!
The fewest decimal digits that read back as a given binary number.

A finite binary number is `m * 2 ^ q`. The reals that round to it form an interval around it,
reaching halfway to each neighbour and holding its ends exactly when `m` is even. On the grid
of decimals with `n` digits only the two points next to the number can lie in that interval
and be nearest, so it is enough to try them for `n = 1, 2, …, 17`; all arithmetic is exact.
-/

namespace AdaptiveVM.Decimal

/-- A finite binary number `± m * 2 ^ q`. `narrow` says that the neighbour towards zero is only
half as far away as the other one, which happens at a power of two. -/
structure Binary where
  negative : Bool
  mantissa : Nat
  exponent : Int
  narrow : Bool

/-- What the bits of a double say. -/
inductive Reading where
  | nan
  | infinite (negative : Bool)
  | finite (x : Binary)

/-- The leading bit of a mantissa, which a double does not store. -/
def hidden : Nat := 0x10000000000000

/-- Splits a double into its sign, mantissa and exponent. -/
def read (x : Float) : Reading :=
  let bits := x.toBits.toNat
  let negative : Bool := bits >>> 63 = 1
  let e : Nat := (bits >>> 52) % 2048
  let f : Nat := bits % hidden
  if e = 2047 then
    if f = 0 then .infinite negative else .nan
  else if e = 0 then .finite ⟨negative, f, -1074, false⟩
  else .finite ⟨negative, f + hidden, (e : Int) - 1075, f = 0 && 1 < e⟩

/-- A number and the interval that reads back as it, as fractions over one denominator. -/
structure Interval where
  value : Nat
  low : Nat
  high : Nat
  denominator : Nat
  closed : Bool

/-- The interval of reals that round to the number. -/
def Binary.interval (x : Binary) : Interval :=
  let scale := 1 <<< x.exponent.toNat
  { value := 4 * x.mantissa * scale
    low := (4 * x.mantissa - (if x.narrow then 1 else 2)) * scale
    high := (4 * x.mantissa + 2) * scale
    denominator := 4 <<< (-x.exponent).toNat
    closed := x.mantissa % 2 = 0 }

/-- The point `num / den` reads back as the number. -/
def Interval.holds (i : Interval) (num den : Nat) : Bool :=
  let here := num * i.denominator
  if i.closed then i.low * den ≤ here && here ≤ i.high * den
  else i.low * den < here && here < i.high * den

/-- The decimal `digits * 10 ^ exponent`. -/
structure Numeral where
  digits : Nat
  exponent : Int

/-- How many digits a positive number has. -/
def digitCount (n : Nat) : Nat := (toString n).length

/-- The zeros after the point of `num / den`, for a positive fraction below one. -/
def leadingZeros (num den : Nat) : Nat → Nat
  | 0 => 0
  | fuel + 1 => if den ≤ num * 10 then 0 else leadingZeros (num * 10) den fuel + 1

/-- The power of ten just above the number: `10 ^ (k - 1) ≤ v < 10 ^ k`. -/
def Interval.magnitude (i : Interval) : Int :=
  if i.denominator ≤ i.value then digitCount (i.value / i.denominator)
  else -(leadingZeros i.value i.denominator 400 : Int)

/-- The nearer of the two neighbours on the grid `10 ^ x` that read back; a number halfway
between them goes up. -/
def Interval.onGrid (i : Interval) (x : Int) : Option Numeral :=
  let up := Nat.pow 10 x.toNat
  let down := Nat.pow 10 (-x).toNat
  let below := i.value * down / (i.denominator * up)
  let remainder := i.value * down % (i.denominator * up)
  let lower := i.holds (below * up) down
  let upper := i.holds ((below + 1) * up) down
  if upper && (!lower || i.denominator * up ≤ 2 * remainder) then some ⟨below + 1, x⟩
  else if lower then some ⟨below, x⟩
  else none

/-- The first grid with a hit, from `n` digits on. -/
def Interval.search (i : Interval) (k : Int) (n : Nat) : Nat → Numeral
  | 0 => ⟨i.value / i.denominator, 0⟩
  | fuel + 1 => (i.onGrid (k - n)).getD (i.search k (n + 1) fuel)

/-- The shortest decimal of a finite number; of several, the nearest. -/
def Binary.shortest (x : Binary) : Numeral :=
  if x.mantissa = 0 then ⟨0, 0⟩
  else x.interval.search x.interval.magnitude 1 18

/-- The number is a whole number. -/
def Binary.isIntegral (x : Binary) : Bool :=
  (x.mantissa <<< x.exponent.toNat) % (1 <<< (-x.exponent).toNat) = 0

/-- The whole part of the number, without its sign. -/
def Binary.whole (x : Binary) : Nat :=
  (x.mantissa <<< x.exponent.toNat) >>> (-x.exponent).toNat

end AdaptiveVM.Decimal
