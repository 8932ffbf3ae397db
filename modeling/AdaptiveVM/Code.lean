import AdaptiveVM.Opcode
import AdaptiveVM.Value

/-!
Code units: the static instruction stream of one callable, with its pools. A unit never
changes; whatever an execution learns about it is kept beside it.
-/

namespace AdaptiveVM

/-- An opcode and its operand byte. -/
structure Instr where
  op : Opcode
  arg : UInt8
  deriving DecidableEq

structure CodeUnit where
  name : String := ""
  instrs : Array Instr := #[]
  constants : Array Value := #[]
  names : Array String := #[]
  argcount : UInt8 := 0
  /-- How many local slots a frame has, parameters included. -/
  nlocals : UInt8 := 0

namespace CodeUnit

instance : Inhabited CodeUnit := ⟨{}⟩

def size (u : CodeUnit) : Nat := u.instrs.size

def instr? (u : CodeUnit) (position : Nat) : Option Instr := u.instrs[position]?

def constant? (u : CodeUnit) (i : UInt8) : Option Value := u.constants[i.toNat]?

def name? (u : CodeUnit) (i : UInt8) : Option String := u.names[i.toNat]?

end CodeUnit

end AdaptiveVM
