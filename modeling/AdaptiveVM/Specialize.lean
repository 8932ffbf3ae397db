import AdaptiveVM.Heap
import AdaptiveVM.Quickened.Site

/-!
Attempts to specialize, family by family.

An attempt looks at what the current execution works on, takes the first member of the family
whose conditions are met, and names the tokens that the member's guard will compare. It decides
nothing about the current execution itself.
-/

namespace AdaptiveVM.Specialize

/-- A slot index as a guard can hold it. -/
def slot? (i : Nat) : Option UInt16 := if i < 65536 then some i.toUInt16 else none

/-- A global: a name the module binds, or else a builtin. The module's keys version also guards
a builtin, since a new name of the module might hide it. -/
def loadGlobal (globals builtins : Namespace) (name : String) : Attempt :=
  if globals.keysVersion = 0 then .refuse .unversioned
  else
    match globals.indexOf? name with
    | some i =>
      match slot? i with
      | none => .refuse .indexOutOfRange
      | some index =>
        { guard := some ⟨index, 0⟩
          versions := some ⟨globals.keysVersion, 0⟩
          verdict := .ok (.loadGlobal .mod) }
    | none =>
      if builtins.keysVersion = 0 then .refuse .unversioned
      else
        match builtins.indexOf? name with
        | none => .refuse .notFound
        | some i =>
          match slot? i with
          | none => .refuse .indexOutOfRange
          | some index =>
            { guard := some ⟨index, 0⟩
              versions := some ⟨globals.keysVersion, builtins.keysVersion⟩
              verdict := .ok (.loadGlobal .builtin) }

/-- A field of an instance. -/
def instanceValue (shape : Token) (i : Nat) : Attempt :=
  match slot? i with
  | none => .refuse .indexOutOfRange
  | some index =>
    if shape = 0 then .refuse .unversioned
    else { guard := some ⟨index, shape⟩, verdict := .ok (.loadAttr .instanceValue) }

/-- An attribute of an instance's class. The shape also guards it, since a field of the same
name would hide it; it is only looked at when the rest has been written. -/
def classAttribute (shape : Token) (attributes : Namespace) (name : String) : Attempt :=
  if attributes.keysVersion = 0 then .refuse .unversioned
  else
    match attributes.indexOf? name with
    | none => .refuse .notFound
    | some i =>
      match slot? i with
      | none => .refuse .indexOutOfRange
      | some index =>
        if shape = 0 then
          { guard := some ⟨index, attributes.keysVersion⟩, verdict := .error .unversioned }
        else
          { guard := some ⟨index, attributes.keysVersion⟩
            versions := some ⟨shape, 0⟩
            verdict := .ok (.loadAttr .cls) }

/-- An attribute of a module. -/
def moduleAttribute (names : Namespace) (name : String) : Attempt :=
  if names.keysVersion = 0 then .refuse .unversioned
  else
    match names.indexOf? name with
    | none => .refuse .notFound
    | some i =>
      match slot? i with
      | none => .refuse .indexOutOfRange
      | some index =>
        { guard := some ⟨index, names.keysVersion⟩, verdict := .ok (.loadAttr .mod) }

def loadAttr (h : Heap) (receiver : Value) (name : String) : Attempt :=
  match receiver with
  | .inst o =>
    match (h.shapeOf o).indexOf? name with
    | some i => instanceValue (h.shapeOf o).id i
    | none => classAttribute (h.shapeOf o).id (h.attributesOf (h.instanceAt o).cls) name
  | .mod m => moduleAttribute (h.namespaceAt m.id) name
  | _ => .refuse .unsupportedReceiver

/-- A call of something with a version, by a member that compares only that. -/
def callee (version : Token) (member : CallMember) : Attempt :=
  if version = 0 then .refuse .unversioned
  else { guard := some ⟨0, version⟩, verdict := .ok (.call member) }

def call (h : Heap) (target : Value) (argc : UInt8) : Attempt :=
  match target with
  | .function f =>
    let fn := h.functionAt f
    if (h.unitAt fn.unit).argcount ≠ argc then .refuse .arityMismatch
    else callee fn.version .functionExact
  | .builtin b =>
    let fn := h.builtinAt b
    match fn.arity with
    | none => .refuse .unsupportedCallee
    | some arity => if arity ≠ argc then .refuse .arityMismatch else callee fn.id .builtin
  | _ => .refuse .unsupportedCallee

/-- Addition: the types of the operands decide. -/
def binaryAdd : Value → Value → Attempt
  | .int _, .int _ => { verdict := .ok (.binaryAdd .int) }
  | .float _, .float _ => { verdict := .ok (.binaryAdd .float) }
  | .str _, .str _ => { verdict := .ok (.binaryAdd .str) }
  | _, _ => .refuse .unsupportedOperands

end AdaptiveVM.Specialize
