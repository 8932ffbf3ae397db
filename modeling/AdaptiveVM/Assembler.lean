import AdaptiveVM.Code
import AdaptiveVM.Error

/-!
The assembler: code units built instruction by instruction.

It keeps the pools while instructions are added, shares an entry between equal constants or
names, and checks every operand once when the unit is finished. An operation that fails says
why; it leaves an assembler like any other, and has no other effect on it.
-/

namespace AdaptiveVM

structure Assembler where
  name : String
  instrs : Array Instr := #[]
  constants : Array Value := #[]
  names : Array String := #[]
  argcount : UInt8 := 0
  nlocals : UInt8 := 0

namespace Assembler

/-- A pool has this many entries at most, since an operand is one byte. -/
def poolLimit : Nat := 256

/-- Declares the parameters; they take the first local slots. -/
def params (a : Assembler) (count : UInt8) : Assembler :=
  { a with argcount := count, nlocals := max a.nlocals count }

/-- Declares the number of local slots. -/
def locals (a : Assembler) (count : UInt8) : Assembler :=
  { a with nlocals := max count a.argcount }

/-- Where the next instruction will stand. -/
def position (a : Assembler) : Nat := a.instrs.size

/-- Adds an instruction at `position`. -/
def emit (a : Assembler) (op : Opcode) (arg : UInt8) : Assembler :=
  { a with instrs := a.instrs.push ⟨op, arg⟩ }

/-- Adds an instruction whose operand means nothing, or is still to be patched. -/
def emitOp (a : Assembler) (op : Opcode) : Assembler := a.emit op 0

/-- The entry of a constant, which is added to the pool unless it is there. -/
def internConstant (a : Assembler) (value : Value) : Except CodeFault UInt8 × Assembler :=
  match a.constants.findIdx? (·.indistinguishable value) with
  | some i => (.ok i.toUInt8, a)
  | none =>
    if a.constants.size < poolLimit then
      (.ok a.constants.size.toUInt8, { a with constants := a.constants.push value })
    else (.error (.constantsFull a.name), a)

/-- The entry of a name, which is added to the table unless it is there. -/
def internName (a : Assembler) (name : String) : Except CodeFault UInt8 × Assembler :=
  match a.names.findIdx? (· == name) with
  | some i => (.ok i.toUInt8, a)
  | none =>
    if a.names.size < poolLimit then
      (.ok a.names.size.toUInt8, { a with names := a.names.push name })
    else (.error (.namesFull a.name), a)

/-- Adds an instruction whose operand is an entry, if there is one. -/
def emitEntry (op : Opcode) (entry : Except CodeFault UInt8 × Assembler) :
    Except CodeFault Unit × Assembler :=
  match entry.1 with
  | .ok i => (.ok (), entry.2.emit op i)
  | .error e => (.error e, entry.2)

/-- Points the jump at `position` to `target`. -/
def retarget (a : Assembler) (position target : Nat) : Except CodeFault Unit × Assembler :=
  if 255 < target then (.error (.targetTooFar a.name target), a)
  else
    match a.instrs[position]? with
    | some i =>
      if i.op.isJump then
        (.ok (), { a with instrs := a.instrs.setIfInBounds position ⟨i.op, target.toUInt8⟩ })
      else (.error (.noJumpAt a.name position), a)
    | none => (.error (.noJumpAt a.name position), a)

/-- The answer and the assembler, for a caller that gives up at a failure. -/
def kept {α : Type} (out : Except CodeFault α × Assembler) : Except CodeFault (α × Assembler) :=
  out.1.map (·, out.2)

def addConstant (a : Assembler) (value : Value) : Except CodeFault (UInt8 × Assembler) :=
  kept (a.internConstant value)

def addName (a : Assembler) (name : String) : Except CodeFault (UInt8 × Assembler) :=
  kept (a.internName name)

/-- Adds an instruction that loads a constant. -/
def loadConst (a : Assembler) (value : Value) : Except CodeFault Assembler :=
  (kept (emitEntry .loadConst (a.internConstant value))).map Prod.snd

/-- Adds an instruction whose operand is a name. -/
def emitName (a : Assembler) (op : Opcode) (name : String) : Except CodeFault Assembler :=
  (kept (emitEntry op (a.internName name))).map Prod.snd

def patchJump (a : Assembler) (position target : Nat) : Except CodeFault Assembler :=
  (kept (a.retarget position target)).map Prod.snd

/-- One line of a program: an opcode, and its operand as the programmer thinks of it. -/
inductive Line where
  /-- An operand byte as it is. -/
  | op (op : Opcode) (arg : UInt8)
  /-- Load a constant. -/
  | const (value : Value)
  /-- An instruction about a name. -/
  | name (op : Opcode) (name : String)

/-- Adds one line. -/
def addLine (a : Assembler) : Line → Except CodeFault Assembler
  | .op op arg => .ok (a.emit op arg)
  | .const value => a.loadConst value
  | .name op name => a.emitName op name

/-- Adds lines in order, up to the first that fails. -/
def addLines (a : Assembler) : List Line → Except CodeFault Assembler
  | [] => .ok a
  | l :: rest =>
    match a.addLine l with
    | .ok a => a.addLines rest
    | .error e => .error e

/-- The operand refers to something. A jump may go just past the last instruction. -/
def accepts (a : Assembler) (i : Instr) : Bool :=
  match i.op.operandKind with
  | .none | .argCount => true
  | .const => i.arg.toNat < a.constants.size
  | .name => i.arg.toNat < a.names.size
  | .local => i.arg < a.nlocals
  | .target => i.arg.toNat ≤ a.instrs.size

/-- The finished unit, or the first operand that refers to nothing. -/
def build (a : Assembler) : Except CodeFault CodeUnit :=
  match a.instrs.findIdx? (!a.accepts ·) with
  | some position =>
    let i := a.instrs.getD position ⟨.nop, 0⟩
    .error (.operandRejected a.name i.arg i.op position)
  | none =>
    .ok
      { name := a.name
        instrs := a.instrs
        constants := a.constants
        names := a.names
        argcount := a.argcount
        nlocals := a.nlocals }

/-- A whole unit from its lines. -/
def assemble (name : String) (params locals : UInt8) (lines : List Line) :
    Except CodeFault CodeUnit :=
  match ((({ name := name } : Assembler).params params).locals locals).addLines lines with
  | .ok a => a.build
  | .error e => .error e

end Assembler

end AdaptiveVM
