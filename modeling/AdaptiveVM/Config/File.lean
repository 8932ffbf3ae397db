import AdaptiveVM.Config
import AdaptiveVM.Json
import AdaptiveVM.Report

/-!
Configurations as JSON texts.

A configuration is read from an object, whose unknown members are skipped and whose missing
ones take their defaults, or from an array of the leading fields in order. It is written with
all its fields.
-/

namespace AdaptiveVM

namespace Json

/-- A natural number below a bound. -/
def natBelow? (bound : Nat) : Json → Option Nat
  | .number (some n) => if n < bound then some n else none
  | _ => none

def byte? (j : Json) : Option UInt8 := (j.natBelow? 0x100).map Nat.toUInt8

def word? (j : Json) : Option UInt32 := (j.natBelow? 0x100000000).map Nat.toUInt32

def size? (j : Json) : Option Nat := j.natBelow? 0x10000000000000000

/-- A mode by its name, or by an object whose only member has that name and no value. -/
def mode? : Json → Option Mode
  | .text (some s) => Mode.ofKey? s
  | .object [(some s, .null)] => Mode.ofKey? s
  | _ => none

end Json

namespace Config

/-- The fields in order: their names, and how a value for them is taken in. -/
def fields : List (String × (Config → Json → Option Config)) :=
  [("warmup_threshold", fun c j => j.word?.map fun n => { c with warmupThreshold := n }),
   ("specialize_threshold", fun c j => j.byte?.map fun n => { c with specializeThreshold := n }),
   ("counter_min", fun c j => j.byte?.map fun n => { c with counterMin := n }),
   ("counter_initial", fun c j => j.byte?.map fun n => { c with counterInitial := n }),
   ("counter_max", fun c j => j.byte?.map fun n => { c with counterMax := n }),
   ("hit_step", fun c j => j.byte?.map fun n => { c with hitStep := n }),
   ("miss_step", fun c j => j.byte?.map fun n => { c with missStep := n }),
   ("quicken_memory_limit", fun c j => j.size?.map fun n => { c with memoryLimit := n }),
   ("max_frame_depth", fun c j => j.size?.map fun n => { c with maxFrameDepth := n }),
   ("mode", fun c j => j.mode?.map fun m => { c with mode := m })]

/-- Takes in the members of an object, none of the known ones twice. -/
def ofMembers? (c : Config) (seen : List String) : List (Option String × Json) → Option Config
  | [] => some c
  | (none, _) :: _ => none
  | (some key, v) :: rest =>
    match fields.lookup key with
    | none => ofMembers? c seen rest
    | some put =>
      if key ∈ seen then none
      else
        match put c v with
        | none => none
        | some c => ofMembers? c (key :: seen) rest

/-- Takes in the items of an array, each for the field in its place. -/
def ofItems? (c : Config) :
    List (String × (Config → Json → Option Config)) → List Json → Option Config
  | _, [] => some c
  | [], _ :: _ => none
  | (_, put) :: rest, v :: vs =>
    match put c v with
    | none => none
    | some c => ofItems? c rest vs

def ofJson? : Json → Option Config
  | .object members => ofMembers? {} [] members
  | .array items => ofItems? {} fields items
  | _ => none

/-- Reads a configuration and checks it. -/
def ofText (s : String) : Except Error Config :=
  match (Json.parse? s).bind ofJson? with
  | none => .error (.unparsable "the text is not a configuration")
  | some c =>
    match c.validate with
    | .ok c => .ok c
    | .error f => .error (.config f)

def report (c : Config) : Report :=
  .record
    [("warmup_threshold", .number c.warmupThreshold.toNat),
     ("specialize_threshold", .number c.specializeThreshold.toNat),
     ("counter_min", .number c.counterMin.toNat),
     ("counter_initial", .number c.counterInitial.toNat),
     ("counter_max", .number c.counterMax.toNat),
     ("hit_step", .number c.hitStep.toNat),
     ("miss_step", .number c.missStep.toNat),
     ("quicken_memory_limit", .number c.memoryLimit),
     ("max_frame_depth", .number c.maxFrameDepth),
     ("mode", .text c.mode.key)]

/-- The configuration as an indented JSON text. -/
def text (c : Config) : String := c.report.pretty

end Config

end AdaptiveVM
