/-!
The saturating counter of a specialized site: up on a guard that holds, down on one that
fails, and kept between two bounds. The lower bound means that the site should fall back.
-/

namespace AdaptiveVM

/-- Addition that stops at the largest byte. -/
def saturatingAdd (a b : UInt8) : UInt8 := if 255 < a.toNat + b.toNat then 255 else a + b

/-- Subtraction that stops at zero. -/
def saturatingSub (a b : UInt8) : UInt8 := if a ≤ b then 0 else a - b

/-- The nearest byte between two bounds. -/
def clamp (a low high : UInt8) : UInt8 := if a < low then low else if high < a then high else a

structure Policy where
  min : UInt8
  initial : UInt8
  max : UInt8
  hitStep : UInt8
  missStep : UInt8
  deriving DecidableEq

namespace Policy

/-- The counter after a guard has held. -/
def hit (p : Policy) (counter : UInt8) : UInt8 :=
  clamp (saturatingAdd counter p.hitStep) p.min p.max

/-- The counter after a guard has failed. -/
def miss (p : Policy) (counter : UInt8) : UInt8 :=
  clamp (saturatingSub counter p.missStep) p.min p.max

/-- A miss has brought the counter down to where the site falls back. -/
def falls (p : Policy) (counter : UInt8) : Bool := counter == p.min

/-- The outcome of a guard. -/
inductive Outcome where
  | hit
  | miss
  deriving DecidableEq

/-- What a counter reads after an outcome, and after a miss whether the site falls back. -/
inductive Reading where
  | afterHit (counter : UInt8)
  | afterMiss (counter : UInt8) (fallsBack : Bool)
  deriving DecidableEq

/-- The readings along a run of outcomes. -/
def readings (p : Policy) (counter : UInt8) : List Outcome → List Reading
  | [] => []
  | .hit :: rest => .afterHit (p.hit counter) :: readings p (p.hit counter) rest
  | .miss :: rest =>
    .afterMiss (p.miss counter) (p.falls (p.miss counter)) :: readings p (p.miss counter) rest

/-- The readings along a run of outcomes. Bounds in the wrong order admit no reading at all. -/
def readings? (p : Policy) (counter : UInt8) (outcomes : List Outcome) : Option (List Reading) :=
  if p.max < p.min ∧ outcomes ≠ [] then none else some (p.readings counter outcomes)

end Policy

end AdaptiveVM
