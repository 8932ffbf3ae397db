import AdaptiveVM.Binding
import AdaptiveVM.Machine.Basic

/-!
Calls: warming a unit up, entering a frame, and calling any value.
-/

namespace AdaptiveVM.Machine

/-- One warm-up tick of a unit, from a frame entry or a backward jump. The answer says whether the
frame is to read the quickened stream: a unit that is hot enough is quickened here. Nothing is
counted while tracing, or once the unit is quickened. -/
def warmUp (h : Heap) (a : Array Attachment) (vm : Vm) (u : Nat) :
    Except Error Bool × Array Attachment × Vm :=
  if vm.config.mode = .tracing then (.ok false, a, vm)
  else if (a.getD u default).quickened.isSome then (.ok true, a, vm)
  else
    let a := a.modify u Attachment.tick
    if (a.getD u default).warmup < vm.config.warmupThreshold then (.ok false, a, vm)
    else
      match Quickened.quicken (h.unitAt u).instrs vm.config.memoryLimit with
      | .ok q => (.ok true, a.modify u (·.install q), vm.recordQuickened)
      | .error limit =>
        (.error (.limit limit), a.modify u Attachment.cool, vm.recordQuickenFailure)

/-- Starts executing a unit in a frame of its own, unless there are as many frames as there may
be. -/
def enter (m : Machine) (u : Nat) (globals : Ref .mod) (locals : Array (Option Value)) :
    Progress :=
  match m with
  | ⟨h, a, vm, frames⟩ =>
    if vm.config.maxFrameDepth ≤ vm.depth then
      fail ⟨h, a, vm, frames⟩ (.limit (.depth (vm.depth + 1) vm.config.maxFrameDepth))
    else
      match warmUp h a vm u with
      | (.ok quick, a, vm) =>
        let frame : Frame := { unit := u, globals, locals, quick }
        .running ⟨h, a, { vm with depth := vm.depth + 1 }, frame :: frames⟩
      | (.error e, a, vm) => fail ⟨h, a, vm, frames⟩ e

/-- Calls a function with arguments that fill its parameters exactly. -/
def enterExact (m : Machine) (f : Ref .function) (args : List Value) : Progress :=
  let fn := m.heap.functionAt f
  m.enter fn.unit fn.globals (Binding.slots (m.heap.unitAt fn.unit).nlocals.toNat args)

/-- Delivers the answer of a builtin. The line of the builtin comes first in the chain of an
error. -/
def answer (m : Machine) (b : Ref .builtin) : Except Error Value → Progress
  | .ok v => m.deliver v
  | .error e => m.fail (e.through [.native b.name])

/-- Carries out a builtin whatever the number of its arguments. -/
def perform (m : Machine) (b : Ref .builtin) (args : List Value) : Progress :=
  match m with
  | ⟨h, a, vm, frames⟩ =>
    let (result, h) := h.perform (h.builtinAt b).procedure args
    answer ⟨h, a, vm, frames⟩ b result

/-- Calls a builtin. -/
def callBuiltin (m : Machine) (b : Ref .builtin) (args : List Value) : Progress :=
  match m with
  | ⟨h, a, vm, frames⟩ =>
    let (result, h) := h.invoke b args
    answer ⟨h, a, vm, frames⟩ b result

/-- Makes an instance. -/
def construct (m : Machine) (c : Ref .cls) : Progress :=
  match m with
  | ⟨h, a, vm, frames⟩ =>
    let (o, h) := h.instantiate c
    deliver ⟨h, a, vm, frames⟩ (.inst o)

/-- Calls any value. -/
def call (m : Machine) (callee : Value) (args : List Value) : Progress :=
  match callee with
  | .function f =>
    let fn := m.heap.functionAt f
    let u := m.heap.unitAt fn.unit
    match Binding.bind f.name u.argcount.toNat u.nlocals.toNat fn.defaults args with
    | .ok locals => m.enter fn.unit fn.globals locals
    | .error cause => m.fault cause
  | .builtin b => m.callBuiltin b args
  | .cls c =>
    if args.isEmpty then m.construct c
    else m.fault (.arityMismatch c.name "0" args.length)
  | other => m.fault (.notCallable other.typeName)

end AdaptiveVM.Machine
