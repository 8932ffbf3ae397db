/-!
The instruction set.

An instruction is an opcode and one operand byte. What the byte refers to depends on the
opcode alone. Four opcodes head a family: in a quickened stream they give way to members that
adapt to what they see.
-/

namespace AdaptiveVM

/-- What the operand byte of an instruction refers to. -/
inductive OperandKind where
  /-- Nothing: the byte is ignored. -/
  | none
  /-- An entry of the constant pool. -/
  | const
  /-- An entry of the names table. -/
  | name
  /-- A local slot. -/
  | local
  /-- A position in the stream. -/
  | target
  /-- How many arguments stand on the stack. -/
  | argCount
  deriving DecidableEq

/-- The four families of instructions that adapt. -/
inductive Family where
  | loadGlobal
  | loadAttr
  | call
  | binaryAdd
  deriving DecidableEq

inductive Opcode where
  | nop
  | pop
  | dup
  | loadConst
  | loadFast
  | storeFast
  | loadGlobal
  | storeGlobal
  | loadAttr
  | storeAttr
  | binaryAdd
  | binarySub
  | compareLt
  | jump
  | jumpIfFalse
  | call
  | ret
  deriving DecidableEq

namespace Family

/-- All families, in table order. -/
def all : List Family := [.loadGlobal, .loadAttr, .call, .binaryAdd]

/-- How many cache words a site of the family owns. A `binaryAdd` has no use for its operand
byte and keeps its counter there. -/
def entries : Family → Nat
  | .loadGlobal | .loadAttr | .call => 2
  | .binaryAdd => 0

/-- The opcode at the head of the family. -/
def opcode : Family → Opcode
  | .loadGlobal => .loadGlobal
  | .loadAttr => .loadAttr
  | .call => .call
  | .binaryAdd => .binaryAdd

/-- The place of the family in the table. -/
def index : Family → Nat
  | .loadGlobal => 0
  | .loadAttr => 1
  | .call => 2
  | .binaryAdd => 3

def name : Family → String
  | .loadGlobal => "load_global"
  | .loadAttr => "load_attr"
  | .call => "call"
  | .binaryAdd => "binary_add"

end Family

/-- What holds of every instruction with a given opcode. -/
inductive OpFlag where
  /-- The operand byte means something. -/
  | hasArg
  /-- The operand is a position to jump to. -/
  | jump
  /-- Control never goes on to the next position. -/
  | terminator
  /-- The opcode heads a family. -/
  | adaptive
  deriving DecidableEq

namespace OpFlag

/-- All flags, from the lowest bit up. -/
def all : List OpFlag := [.hasArg, .jump, .terminator, .adaptive]

def bit : OpFlag → Nat
  | .hasArg => 1
  | .jump => 2
  | .terminator => 4
  | .adaptive => 8

def name : OpFlag → String
  | .hasArg => "HAS_ARG"
  | .jump => "JUMP"
  | .terminator => "TERMINATOR"
  | .adaptive => "ADAPTIVE"

end OpFlag

namespace OperandKind

def label : OperandKind → String
  | .none => "None"
  | .const => "Const"
  | .name => "Name"
  | .local => "Local"
  | .target => "Target"
  | .argCount => "ArgCount"

end OperandKind

namespace Opcode

/-- All opcodes, in ascending order of their bytes. -/
def all : List Opcode :=
  [.nop, .pop, .dup, .loadConst, .loadFast, .storeFast, .loadGlobal, .storeGlobal, .loadAttr,
   .storeAttr, .binaryAdd, .binarySub, .compareLt, .jump, .jumpIfFalse, .call, .ret]

/-- The byte that encodes the opcode. -/
def byte : Opcode → UInt8
  | .nop => 0x00
  | .pop => 0x01
  | .dup => 0x02
  | .loadConst => 0x10
  | .loadFast => 0x11
  | .storeFast => 0x12
  | .loadGlobal => 0x13
  | .storeGlobal => 0x14
  | .loadAttr => 0x20
  | .storeAttr => 0x21
  | .binaryAdd => 0x30
  | .binarySub => 0x31
  | .compareLt => 0x32
  | .jump => 0x40
  | .jumpIfFalse => 0x41
  | .call => 0x50
  | .ret => 0x51

/-- The opcode a byte encodes. -/
def ofByte? (b : UInt8) : Option Opcode := all.find? (·.byte = b)

def name : Opcode → String
  | .nop => "Nop"
  | .pop => "Pop"
  | .dup => "Dup"
  | .loadConst => "LoadConst"
  | .loadFast => "LoadFast"
  | .storeFast => "StoreFast"
  | .loadGlobal => "LoadGlobal"
  | .storeGlobal => "StoreGlobal"
  | .loadAttr => "LoadAttr"
  | .storeAttr => "StoreAttr"
  | .binaryAdd => "BinaryAdd"
  | .binarySub => "BinarySub"
  | .compareLt => "CompareLt"
  | .jump => "Jump"
  | .jumpIfFalse => "JumpIfFalse"
  | .call => "Call"
  | .ret => "Return"

def operandKind : Opcode → OperandKind
  | .nop | .pop | .dup | .binaryAdd | .binarySub | .compareLt | .ret => .none
  | .loadConst => .const
  | .loadFast | .storeFast => .local
  | .loadGlobal | .storeGlobal | .loadAttr | .storeAttr => .name
  | .jump | .jumpIfFalse => .target
  | .call => .argCount

/-- The family the opcode heads. -/
def family? : Opcode → Option Family
  | .loadGlobal => some .loadGlobal
  | .loadAttr => some .loadAttr
  | .call => some .call
  | .binaryAdd => some .binaryAdd
  | _ => none

/-- The instruction jumps to its operand. -/
def isJump (op : Opcode) : Bool := op.operandKind = .target

def hasFlag (op : Opcode) : OpFlag → Bool
  | .hasArg => op.operandKind ≠ .none
  | .jump => op.isJump
  | .terminator => op = .jump || op = .ret
  | .adaptive => op.family?.isSome

/-- The flags of the opcode, from the lowest bit up. -/
def flags (op : Opcode) : List OpFlag := OpFlag.all.filter op.hasFlag

/-- The flags as one byte. -/
def flagBits (op : Opcode) : Nat := op.flags.foldl (fun bits f => bits + f.bit) 0

end Opcode

end AdaptiveVM
