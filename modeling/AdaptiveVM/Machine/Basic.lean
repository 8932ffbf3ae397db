import AdaptiveVM.Builtins
import AdaptiveVM.Stats
import AdaptiveVM.World

/-!
The machine: a world, an interpreter with its settings and counts, and a stack of frames.

A frame stays at the position of the instruction it is executing until that instruction is
done, also while a call it has made is under way; so the frames of a machine are at any moment
the chain of calls an error would report.
-/

namespace AdaptiveVM

/-- An instruction about to be executed: its unit, its position, and its static form. -/
structure TraceEvent where
  unit : String
  position : Nat
  instr : Instr
  deriving DecidableEq

/-- An interpreter: its settings, the module it finds builtins in, and what it has counted. -/
structure Vm where
  config : Config
  builtins : Ref .mod
  stats : Stats := {}
  /-- How many frames are active. -/
  depth : Nat := 0
  /-- Executed instructions are recorded. -/
  observed : Bool := false
  events : Array TraceEvent := #[]

instance : Inhabited Vm := ⟨{ config := {}, builtins := ⟨0, ""⟩ }⟩

structure Frame where
  /-- The code unit it executes. -/
  unit : Nat
  globals : Ref .mod
  locals : Array (Option Value)
  /-- The value stack, its top first. -/
  stack : List Value := []
  position : Nat := 0
  /-- The frame reads the quickened stream. -/
  quick : Bool := false

namespace Frame

def push (f : Frame) (v : Value) : Frame := { f with stack := v :: f.stack }

/-- On to the next instruction. -/
def advance (f : Frame) : Frame := { f with position := f.position + 1 }

/-- The last `count` values pushed, oldest first, and the stack below them. -/
def popMany? (f : Frame) (count : Nat) : Option (List Value × List Value) :=
  if f.stack.length < count then none
  else some ((f.stack.take count).reverse, f.stack.drop count)

/-- The frame's line in a call chain. -/
def traceFrame (h : Heap) (f : Frame) : TraceFrame := .code (h.unitAt f.unit).name f.position

end Frame

structure Machine where
  heap : Heap
  attachments : Array Attachment
  vm : Vm
  /-- The active frames, innermost first. -/
  frames : List Frame

/-- Where a step leads. A machine that has come to an end has no frames left. -/
inductive Progress where
  | running (m : Machine)
  | returned (m : Machine) (v : Value)
  | failed (m : Machine) (e : Error)

namespace Vm

/-- An interpreter with a fresh module of builtins. -/
def create (config : Config) (h : Heap) : Vm × Heap :=
  let (builtins, h) := Builtins.install h
  ({ config, builtins }, h)

def setMode (vm : Vm) (mode : Mode) : Vm := { vm with config := { vm.config with mode } }

def resetStats (vm : Vm) : Vm := { vm with stats := {} }

/-- Records an instruction, if someone is watching. Who watches is told and has no say: code that
runs in the middle of a step, and changes what the step then finds, is left out. -/
def observe (vm : Vm) (unit : String) (position : Nat) (instr : Instr) : Vm :=
  if vm.observed then { vm with events := vm.events.push ⟨unit, position, instr⟩ } else vm

/-- Counts an event at a site. -/
def record (vm : Vm) (family : Family) (event : SiteEvent) : Vm :=
  { vm with stats := vm.stats.record family event }

/-- Counts a unit that has been quickened. -/
def recordQuickened (vm : Vm) : Vm :=
  { vm with stats := { vm.stats with quickenedUnits := vm.stats.quickenedUnits + 1 } }

/-- Counts a unit that could not be quickened. -/
def recordQuickenFailure (vm : Vm) : Vm :=
  { vm with stats := { vm.stats with quickenFailures := vm.stats.quickenFailures + 1 } }

end Vm

namespace Machine

/-- Hands the answer of the instruction under way to the innermost frame, which goes on; without
a frame it is the answer of the whole execution. -/
def deliver (m : Machine) (v : Value) : Progress :=
  match m with
  | ⟨h, a, vm, []⟩ => .returned ⟨h, a, vm, []⟩ v
  | ⟨h, a, vm, f :: rest⟩ => .running ⟨h, a, vm, (f.push v).advance :: rest⟩

/-- Ends the execution with an error that comes through every active frame. -/
def fail (m : Machine) (e : Error) : Progress :=
  match m with
  | ⟨h, a, vm, frames⟩ =>
    .failed ⟨h, a, { vm with depth := vm.depth - frames.length }, []⟩
      (e.through (frames.map (Frame.traceFrame h)))

/-- Ends the execution with a fault raised by the innermost frame. -/
def fault (m : Machine) (cause : Fault) : Progress := m.fail (.ofFault cause)

/-- Delivers the answer of an operation, or ends with its fault. -/
def settle (m : Machine) : Except Fault Value → Progress
  | .ok v => m.deliver v
  | .error cause => m.fault cause

/-- Leaves the innermost frame, below which are `rest`, with a value for the frame below. -/
def leave (h : Heap) (a : Array Attachment) (vm : Vm) (rest : List Frame) (v : Value) :
    Progress :=
  deliver ⟨h, a, { vm with depth := vm.depth - 1 }, rest⟩ v

end Machine

end AdaptiveVM
