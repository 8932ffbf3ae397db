import AdaptiveVM.Machine.Generic
import AdaptiveVM.Specialize

/-!
The members of the families, one family at a time.

A specialized member first tries its guard, against the words of its site and the heap as it
is. Where the guard holds the fast way gives the answer, and everywhere else the generic one
does; either way the execution is one event in the life of the site.
-/

namespace AdaptiveVM

namespace LoadGlobalMember

/-- The value behind the guard, if the guard holds. -/
def probe (member : LoadGlobalMember) (e : Entry) (v : VersionPair)
    (globals builtins : Namespace) : Option Value :=
  match member with
  | .adaptive => none
  | .mod =>
    if v.first ≠ 0 ∧ globals.keysVersion = v.first then globals.valueAt? e.index.toNat else none
  | .builtin =>
    if v.first ≠ 0 ∧ v.second ≠ 0 ∧ globals.keysVersion = v.first ∧
        builtins.keysVersion = v.second then
      builtins.valueAt? e.index.toNat
    else none

def trial (member : LoadGlobalMember) (holds : Bool) (attempt : Attempt) : Trial :=
  if member = .adaptive then .adaptive attempt else .guarded holds

end LoadGlobalMember

namespace LoadAttrMember

/-- The value behind the guard, if the guard holds. -/
def probe (member : LoadAttrMember) (e : Entry) (v : VersionPair) (h : Heap)
    (receiver : Value) : Option Value :=
  if e.version = 0 then none
  else
    match member, receiver with
    | .instanceValue, .inst o => h.fieldIfShape? o e.version e.index.toNat
    | .cls, .inst o =>
      if (h.shapeOf o).id = v.first then
        let attributes := h.attributesOf (h.instanceAt o).cls
        if attributes.keysVersion = e.version then attributes.valueAt? e.index.toNat else none
      else none
    | .mod, .mod m =>
      let names := h.namespaceAt m.id
      if names.keysVersion = e.version then names.valueAt? e.index.toNat else none
    | _, _ => none

def trial (member : LoadAttrMember) (holds : Bool) (attempt : Attempt) : Trial :=
  if member = .adaptive then .adaptive attempt else .guarded holds

end LoadAttrMember

/-- A call whose guard holds. -/
inductive FastCall where
  | function (f : Ref .function)
  | builtin (b : Ref .builtin)

namespace CallMember

/-- The call behind the guard, if the guard holds. -/
def probe (member : CallMember) (e : Entry) (h : Heap) (callee : Value) : Option FastCall :=
  match member, callee with
  | .functionExact, .function f =>
    let fn := h.functionAt f
    if e.version ≠ 0 ∧ fn.version = e.version ∧ (h.unitAt fn.unit).argcount = e.arg then
      some (.function f)
    else none
  | .builtin, .builtin b =>
    let fn := h.builtinAt b
    if e.version ≠ 0 ∧ fn.id = e.version ∧ fn.arity = some e.arg then some (.builtin b) else none
  | _, _ => none

def trial (member : CallMember) (holds : Bool) (attempt : Attempt) : Trial :=
  if member = .adaptive then .adaptive attempt else .guarded holds

end CallMember

namespace BinaryAddMember

/-- The answer of the fast way, if the operands have the types it is for. -/
def probe (member : BinaryAddMember) (left right : Value) : Option (Except Fault Value) :=
  match member, left, right with
  | .int, .int a, .int b => some (Operation.addInts a b)
  | .float, .float a, .float b => some (.ok (Operation.addFloats a b))
  | .str, .str a, .str b => some (.ok (Operation.concat a b))
  | _, _, _ => none

def trial (member : BinaryAddMember) (holds : Bool) (attempt : Attempt) : Trial :=
  if member = .adaptive then .adaptive attempt else .guarded holds

end BinaryAddMember

namespace Machine

/-- The counter of a site of a unit. -/
def counterAt (a : Array Attachment) (u position : Nat) : UInt8 :=
  match (a.getD u default).quickened with
  | some q => q.counter position
  | none => 0

/-- Lets an execution have its effect on a site and on the counts of its family. -/
def visit (a : Array Attachment) (vm : Vm) (u position : Nat) (family : Family) (trial : Trial) :
    Array Attachment × Vm :=
  let event := trial.event vm.config (counterAt a u position)
  (a.modify u (·.apply position family event), vm.record family event)

/-- Executes a site that loads a global. -/
def stepLoadGlobal (h : Heap) (a : Array Attachment) (vm : Vm) (f : Frame) (rest : List Frame)
    (u : CodeUnit) (member : LoadGlobalMember) (e : Entry) (v : VersionPair) : Progress :=
  match u.name? e.arg with
  | none => fail ⟨h, a, vm, f :: rest⟩ (.code (.operandOutOfRange u.name f.position))
  | some key =>
    let globals := h.namespaceAt f.globals.id
    let builtins := h.namespaceAt vm.builtins.id
    let found := member.probe e v globals builtins
    let trial := member.trial found.isSome (Specialize.loadGlobal globals builtins key)
    let (a, vm) := visit a vm f.unit f.position .loadGlobal trial
    match found with
    | some value => deliver ⟨h, a, vm, f :: rest⟩ value
    | none => settle ⟨h, a, vm, f :: rest⟩ (Operation.loadGlobal globals builtins key)

/-- Executes a site that loads an attribute. -/
def stepLoadAttr (h : Heap) (a : Array Attachment) (vm : Vm) (f : Frame) (rest : List Frame)
    (u : CodeUnit) (member : LoadAttrMember) (e : Entry) (v : VersionPair) : Progress :=
  match f.stack with
  | [] => fail ⟨h, a, vm, f :: rest⟩ (.code (.stackUnderflow u.name))
  | receiver :: below =>
    let f := { f with stack := below }
    match u.name? e.arg with
    | none => fail ⟨h, a, vm, f :: rest⟩ (.code (.operandOutOfRange u.name f.position))
    | some key =>
      let found := member.probe e v h receiver
      let trial := member.trial found.isSome (Specialize.loadAttr h receiver key)
      let (a, vm) := visit a vm f.unit f.position .loadAttr trial
      match found with
      | some value => deliver ⟨h, a, vm, f :: rest⟩ value
      | none => settle ⟨h, a, vm, f :: rest⟩ (Operation.loadAttr h receiver key)

/-- Executes a site that calls. -/
def stepCall (h : Heap) (a : Array Attachment) (vm : Vm) (f : Frame) (rest : List Frame)
    (u : CodeUnit) (member : CallMember) (e : Entry) : Progress :=
  match f.popMany? e.arg.toNat with
  | some (args, callee :: below) =>
    let f := { f with stack := below }
    let found := member.probe e h callee
    let trial := member.trial found.isSome (Specialize.call h callee e.arg)
    let (a, vm) := visit a vm f.unit f.position .call trial
    match found with
    | some (.function fn) => enterExact ⟨h, a, vm, f :: rest⟩ fn args
    | some (.builtin b) => perform ⟨h, a, vm, f :: rest⟩ b args
    | none => call ⟨h, a, vm, f :: rest⟩ callee args
  | _ => fail ⟨h, a, vm, f :: rest⟩ (.code (.stackUnderflow u.name))

/-- Executes a site that adds. -/
def stepBinaryAdd (h : Heap) (a : Array Attachment) (vm : Vm) (f : Frame) (rest : List Frame)
    (u : CodeUnit) (member : BinaryAddMember) : Progress :=
  match f.stack with
  | right :: left :: below =>
    let f := { f with stack := below }
    let found := member.probe left right
    let trial := member.trial found.isSome (Specialize.binaryAdd left right)
    let (a, vm) := visit a vm f.unit f.position .binaryAdd trial
    settle ⟨h, a, vm, f :: rest⟩ (found.getD (Operation.add left right))
  | _ => fail ⟨h, a, vm, f :: rest⟩ (.code (.stackUnderflow u.name))

end Machine

end AdaptiveVM
