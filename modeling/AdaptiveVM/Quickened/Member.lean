import AdaptiveVM.Code

/-!
The members of the four families, and the instructions of a quickened stream.

Each family has a type of its own, so that a site can only ever move between the members of
its family.
-/

namespace AdaptiveVM

inductive LoadGlobalMember where
  | adaptive
  /-- The module binds the name. -/
  | mod
  /-- The module does not bind the name, and a builtin has it. -/
  | builtin
  deriving DecidableEq

inductive LoadAttrMember where
  | adaptive
  /-- The instance has the field. -/
  | instanceValue
  /-- The instance does not have the field, and its class has the attribute. -/
  | cls
  /-- The receiver is a module that binds the name. -/
  | mod
  deriving DecidableEq

inductive CallMember where
  | adaptive
  /-- A function with as many parameters as there are arguments. -/
  | functionExact
  /-- A builtin with as many parameters as there are arguments. -/
  | builtin
  deriving DecidableEq

inductive BinaryAddMember where
  | adaptive
  | int
  | float
  | str
  deriving DecidableEq

/-- The operation of a quickened instruction: a static opcode, or a member of a family. -/
inductive QuickOp where
  | plain (op : Opcode)
  | loadGlobal (member : LoadGlobalMember)
  | loadAttr (member : LoadAttrMember)
  | call (member : CallMember)
  | binaryAdd (member : BinaryAddMember)
  deriving DecidableEq

namespace LoadGlobalMember

def label : LoadGlobalMember → String
  | .adaptive => "Adaptive"
  | .mod => "Module"
  | .builtin => "Builtin"

end LoadGlobalMember

namespace LoadAttrMember

def label : LoadAttrMember → String
  | .adaptive => "Adaptive"
  | .instanceValue => "InstanceValue"
  | .cls => "Class"
  | .mod => "Module"

end LoadAttrMember

namespace CallMember

def label : CallMember → String
  | .adaptive => "Adaptive"
  | .functionExact => "FunctionExact"
  | .builtin => "Builtin"

end CallMember

namespace BinaryAddMember

def label : BinaryAddMember → String
  | .adaptive => "Adaptive"
  | .int => "Int"
  | .float => "Float"
  | .str => "Str"

end BinaryAddMember

namespace QuickOp

/-- The member every site of a family starts as, and falls back to. -/
def adaptive : Family → QuickOp
  | .loadGlobal => .loadGlobal .adaptive
  | .loadAttr => .loadAttr .adaptive
  | .call => .call .adaptive
  | .binaryAdd => .binaryAdd .adaptive

/-- The family of a member. A static opcode has none here, even one that heads a family. -/
def family? : QuickOp → Option Family
  | .plain _ => none
  | .loadGlobal _ => some .loadGlobal
  | .loadAttr _ => some .loadAttr
  | .call _ => some .call
  | .binaryAdd _ => some .binaryAdd

/-- The static opcode the instruction stands for. -/
def opcode : QuickOp → Opcode
  | .plain op => op
  | .loadGlobal _ => .loadGlobal
  | .loadAttr _ => .loadAttr
  | .call _ => .call
  | .binaryAdd _ => .binaryAdd

def isAdaptive : QuickOp → Bool
  | .loadGlobal .adaptive | .loadAttr .adaptive | .call .adaptive | .binaryAdd .adaptive => true
  | _ => false

def isSpecialized (op : QuickOp) : Bool := op.family?.isSome && !op.isAdaptive

/-- The family's part of the name. -/
def group : QuickOp → String
  | .plain _ => "Plain"
  | .loadGlobal _ => "LoadGlobal"
  | .loadAttr _ => "LoadAttr"
  | .call _ => "Call"
  | .binaryAdd _ => "BinaryAdd"

/-- The member's part of the name. -/
def label : QuickOp → String
  | .plain op => op.name
  | .loadGlobal member => member.label
  | .loadAttr member => member.label
  | .call member => member.label
  | .binaryAdd member => member.label

def name : QuickOp → String
  | .plain op => op.name
  | op => op.group ++ op.label

end QuickOp

/-- One instruction of a quickened stream. The operand byte of a static opcode is its own; that
of a site with cache words is the distance to them, and that of any other site its counter. -/
structure QuickInstr where
  op : QuickOp
  arg : UInt8
  deriving DecidableEq

/-- A static instruction as it stands. -/
def QuickInstr.plain (i : Instr) : QuickInstr := ⟨.plain i.op, i.arg⟩

instance : Inhabited QuickInstr := ⟨.plain ⟨.nop, 0⟩⟩

end AdaptiveVM
