import AdaptiveVM.Error
import AdaptiveVM.Policy

/-!
The tuning of a machine: when a unit is quickened, when a site specializes, how its counter
moves, and the limits on memory and depth.
-/

namespace AdaptiveVM

/-- How frames execute. -/
inductive Mode where
  /-- Hot units are quickened, and their sites specialize. -/
  | adaptive
  /-- Only static streams are executed, and nothing is learnt. -/
  | tracing
  deriving DecidableEq

namespace Mode

def label : Mode → String
  | .adaptive => "Adaptive"
  | .tracing => "Tracing"

def key : Mode → String
  | .adaptive => "adaptive"
  | .tracing => "tracing"

def ofKey? : String → Option Mode
  | "adaptive" => some .adaptive
  | "tracing" => some .tracing
  | _ => none

end Mode

structure Config where
  /-- Frame entries and backward jumps before a unit is quickened. -/
  warmupThreshold : UInt32 := 8
  /-- Executions of an adaptive site before it tries to specialize. -/
  specializeThreshold : UInt8 := 8
  counterMin : UInt8 := 0
  counterInitial : UInt8 := 4
  counterMax : UInt8 := 8
  hitStep : UInt8 := 1
  missStep : UInt8 := 2
  /-- The bytes one unit's quickened form may take. -/
  memoryLimit : Nat := 1048576
  /-- The frames that may be active at once. -/
  maxFrameDepth : Nat := 512
  mode : Mode := .adaptive
  deriving DecidableEq

namespace Config

instance : Inhabited Config := ⟨{}⟩

/-- The tuning of the counters. -/
def policy (c : Config) : Policy :=
  { min := c.counterMin
    initial := c.counterInitial
    max := c.counterMax
    hitStep := c.hitStep
    missStep := c.missStep }

/-- Misses in a row from the upper bound of the counter to the lower one. -/
def missesFromMax (c : Config) : UInt8 :=
  let range := c.counterMax.toNat - c.counterMin.toNat
  ((range + c.missStep.toNat - 1) / c.missStep.toNat).toUInt8

/-- The first thing that is wrong with a configuration. A site whose counter is as high as it can
get must still fall back within as many misses as a fresh one has to spare. -/
def fault? (c : Config) : Option ConfigFault :=
  if c.specializeThreshold < 2 then some (.lowThreshold c.specializeThreshold)
  else if c.counterInitial ≤ c.counterMin then
    some (.initialNotAboveMin c.counterInitial c.counterMin)
  else if c.counterMax < c.counterInitial then
    some (.initialAboveMax c.counterInitial c.counterMax)
  else if c.hitStep = 0 ∨ c.missStep = 0 then some .zeroStep
  else if c.counterInitial - c.counterMin < c.missesFromMax then
    some (.smallMissStep c.missStep c.counterMax c.missesFromMax c.counterMin
      (c.counterInitial - c.counterMin))
  else if c.maxFrameDepth = 0 then some .zeroDepth
  else none

/-- The configuration, if nothing is wrong with it. -/
def validate (c : Config) : Except ConfigFault Config :=
  match c.fault? with
  | some f => .error f
  | none => .ok c

end Config

end AdaptiveVM
