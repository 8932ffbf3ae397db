import AdaptiveVM.Assembler
import Mathlib

/-!
Units written call by call.

A unit is written by any sequence of calls of the assembler, some of which may fail; one that fails
has no effect. Parameters are local slots, and every call keeps room for them.
-/

namespace AdaptiveVM.Assembler

/-- One call of the assembler. -/
inductive Call where
  | params (count : UInt8)
  | locals (count : UInt8)
  | emit (op : Opcode) (arg : UInt8)
  | emitOp (op : Opcode)
  | addConstant (value : Value)
  | addName (name : String)
  | loadConst (value : Value)
  | emitName (op : Opcode) (name : String)
  | patchJump (position target : Nat)

/-- The answer to a call, and the assembler after it. -/
def perform (a : Assembler) : Call → Except CodeFault Unit × Assembler
  | .params count => (.ok (), a.params count)
  | .locals count => (.ok (), a.locals count)
  | .emit op arg => (.ok (), a.emit op arg)
  | .emitOp op => (.ok (), a.emitOp op)
  | .addConstant value => ((a.internConstant value).1.map fun _ => (), (a.internConstant value).2)
  | .addName name => ((a.internName name).1.map fun _ => (), (a.internName name).2)
  | .loadConst value => emitEntry .loadConst (a.internConstant value)
  | .emitName op name => emitEntry op (a.internName name)
  | .patchJump position target => a.retarget position target

/-- The assembler after a call, whether or not it fails. -/
def take (a : Assembler) (c : Call) : Assembler := (a.perform c).2

/-- A unit written by some calls. -/
def written (name : String) (calls : List Call) : Assembler := calls.foldl take { name }

/-! ### What operations do -/

/-- A constant shares the entry of one that cannot be told apart, or has a new one, or there is no
room. -/
lemma internConstant_cases (a : Assembler) (v : Value) :
    (∃ (k : Nat) (x : Value), a.constants[k]? = some x ∧ x.indistinguishable v ∧
      a.internConstant v = (.ok k.toUInt8, a)) ∨
    ((∀ x ∈ a.constants, x.indistinguishable v = false) ∧
      ((a.constants.size < 256 ∧ a.internConstant v =
          (.ok a.constants.size.toUInt8, { a with constants := a.constants.push v })) ∨
        (256 ≤ a.constants.size ∧ a.internConstant v = (.error (.constantsFull a.name), a)))) := by
  rcases hfind : a.constants.findIdx? (·.indistinguishable v) with _ | k
  · refine .inr ⟨fun x hx => by simpa using Array.findIdx?_eq_none_iff.mp hfind x hx, ?_⟩
    rw [internConstant, hfind]
    by_cases hroom : a.constants.size < 256
    · exact .inl ⟨hroom, if_pos hroom⟩
    · exact .inr ⟨Nat.not_lt.mp hroom, if_neg hroom⟩
  · obtain ⟨hk, hsame, -⟩ := Array.findIdx?_eq_some_iff_getElem.mp hfind
    refine .inl ⟨k, _, Array.getElem?_eq_getElem hk, hsame, ?_⟩
    rw [internConstant, hfind]

lemma internName_cases (a : Assembler) (key : String) :
    (∃ k : Nat, a.names[k]? = some key ∧ a.internName key = (.ok k.toUInt8, a)) ∨
    (key ∉ a.names ∧
      ((a.names.size < 256 ∧ a.internName key =
          (.ok a.names.size.toUInt8, { a with names := a.names.push key })) ∨
        (256 ≤ a.names.size ∧ a.internName key = (.error (.namesFull a.name), a)))) := by
  rcases hfind : a.names.findIdx? (· == key) with _ | k
  · refine .inr ⟨fun hmem => by simpa using Array.findIdx?_eq_none_iff.mp hfind key hmem, ?_⟩
    rw [internName, hfind]
    by_cases hroom : a.names.size < 256
    · exact .inl ⟨hroom, if_pos hroom⟩
    · exact .inr ⟨Nat.not_lt.mp hroom, if_neg hroom⟩
  · obtain ⟨hk, hsame, -⟩ := Array.findIdx?_eq_some_iff_getElem.mp hfind
    refine .inl ⟨k, ?_, ?_⟩
    · rw [Array.getElem?_eq_getElem hk, eq_of_beq hsame]
    · rw [internName, hfind]

/-- A jump is pointed elsewhere, or there is none, or the target is too far. -/
lemma retarget_cases (a : Assembler) (position target : Nat) :
    (∃ i, target ≤ 255 ∧ a.instrs[position]? = some i ∧ i.op.isJump = true ∧
      a.retarget position target =
        (.ok (), { a with instrs := a.instrs.setIfInBounds position ⟨i.op, target.toUInt8⟩ })) ∨
    ((255 < target ∨ ∀ i, a.instrs[position]? = some i → i.op.isJump = false) ∧
      ∃ e, a.retarget position target = (.error e, a)) := by
  unfold retarget
  by_cases hfar : 255 < target
  · exact .inr ⟨.inl hfar, _, if_pos hfar⟩
  rw [if_neg hfar]
  rcases hi : a.instrs[position]? with _ | i
  · exact .inr ⟨.inr fun i h => (by cases h), _, rfl⟩
  · rcases hjump : i.op.isJump with _ | _
    · refine .inr ⟨.inr fun _ h => Option.some.inj h ▸ hjump, .noJumpAt a.name position, ?_⟩
      simp only [hjump, Bool.false_eq_true, if_false]
    · refine .inl ⟨i, Nat.not_lt.mp hfar, rfl, hjump, ?_⟩
      simp only [hjump, if_true]

variable {a a' : Assembler} {c : Call} {e : CodeFault}

/-- **A call that fails has no effect.** -/
theorem take_of_error (h : (a.perform c).1 = .error e) : a.take c = a := by
  have hconstant (v : Value) (h : (a.internConstant v).1 = .error e) :
      (a.internConstant v).2 = a := by
    rcases a.internConstant_cases v with ⟨k, x, -, -, heq⟩ | ⟨-, ⟨-, heq⟩ | ⟨-, heq⟩⟩
    · rw [heq]
    · rw [heq] at h
      cases h
    · rw [heq]
  have hname (key : String) (h : (a.internName key).1 = .error e) : (a.internName key).2 = a := by
    rcases a.internName_cases key with ⟨k, -, heq⟩ | ⟨-, ⟨-, heq⟩ | ⟨-, heq⟩⟩
    · rw [heq]
    · rw [heq] at h
      cases h
    · rw [heq]
  have hentry {op : Opcode} {entry : Except CodeFault UInt8 × Assembler}
      (h : (emitEntry op entry).1 = .error e) :
      entry.1 = .error e ∧ (emitEntry op entry).2 = entry.2 := by
    obtain ⟨_ | i, b⟩ := entry
    · cases h
      exact ⟨rfl, rfl⟩
    · cases h
  rw [take]
  cases c with
  | params count | locals count | emit op arg | emitOp op => cases h
  | addConstant v =>
    refine hconstant v ?_
    dsimp only [perform] at h
    rcases hr : (a.internConstant v).1 with _ | k <;> rw [hr] at h <;> cases h
    rfl
  | addName key =>
    refine hname key ?_
    dsimp only [perform] at h
    rcases hr : (a.internName key).1 with _ | k <;> rw [hr] at h <;> cases h
    rfl
  | loadConst v =>
    obtain ⟨herror, hsame⟩ := hentry h
    exact hsame.trans (hconstant v herror)
  | emitName op key =>
    obtain ⟨herror, hsame⟩ := hentry h
    exact hsame.trans (hname key herror)
  | patchJump position target =>
    dsimp only [perform] at h ⊢
    rcases a.retarget_cases position target with ⟨i, -, -, -, heq⟩ | ⟨-, e, heq⟩
    · rw [heq] at h
      cases h
    · rw [heq]

/-- Pools and instructions have been added to, and nothing has been declared. -/
def Extends (a a' : Assembler) : Prop := a'.argcount = a.argcount ∧ a'.nlocals = a.nlocals

lemma internConstant_extends (a : Assembler) (v : Value) : a.Extends (a.internConstant v).2 := by
  rcases a.internConstant_cases v with ⟨k, x, -, -, heq⟩ | ⟨-, ⟨-, heq⟩ | ⟨-, heq⟩⟩ <;> rw [heq] <;>
    exact ⟨rfl, rfl⟩

lemma internName_extends (a : Assembler) (key : String) : a.Extends (a.internName key).2 := by
  rcases a.internName_cases key with ⟨k, -, heq⟩ | ⟨-, ⟨-, heq⟩ | ⟨-, heq⟩⟩ <;> rw [heq] <;>
    exact ⟨rfl, rfl⟩

lemma Extends.emitEntry {entry : Except CodeFault UInt8 × Assembler} (h : a.Extends entry.2)
    (op : Opcode) : a.Extends (emitEntry op entry).2 := by
  obtain ⟨_ | i, b⟩ := entry
  · exact h
  · exact h

/-- A call declares parameters or slots, or extends the unit. -/
lemma take_cases (a : Assembler) (c : Call) :
    (∃ count, a.take c = a.params count) ∨ (∃ count, a.take c = a.locals count) ∨
      a.Extends (a.take c) := by
  cases c with
  | params count => exact .inl ⟨count, rfl⟩
  | locals count => exact .inr (.inl ⟨count, rfl⟩)
  | emit op arg => exact .inr (.inr ⟨rfl, rfl⟩)
  | emitOp op => exact .inr (.inr ⟨rfl, rfl⟩)
  | addConstant v => exact .inr (.inr (a.internConstant_extends v))
  | addName key => exact .inr (.inr (a.internName_extends key))
  | loadConst v => exact .inr (.inr ((a.internConstant_extends v).emitEntry _))
  | emitName op key => exact .inr (.inr ((a.internName_extends key).emitEntry _))
  | patchJump position target =>
    refine .inr (.inr ?_)
    rw [take, perform]
    rcases a.retarget_cases position target with ⟨i, -, -, -, heq⟩ | ⟨-, e, heq⟩ <;> rw [heq] <;>
      exact ⟨rfl, rfl⟩

lemma le_max_byte (m n : UInt8) : n ≤ max m n := by
  rw [UInt8.max_def]
  split
  · exact UInt8.le_refl n
  · next hlt => exact UInt8.le_of_lt (UInt8.not_le.mp hlt)

lemma take_roomy (h : a.argcount ≤ a.nlocals) (c : Call) :
    (a.take c).argcount ≤ (a.take c).nlocals := by
  rcases a.take_cases c with ⟨count, heq⟩ | ⟨count, heq⟩ | ⟨hargs, hlocals⟩
  · rw [heq]
    exact le_max_byte a.nlocals count
  · rw [heq]
    exact le_max_byte count a.argcount
  · rw [hargs, hlocals]
    exact h

/-- **There is a local slot for every parameter**, whatever the calls. -/
theorem written_roomy (name : String) (calls : List Call) :
    (written name calls).argcount ≤ (written name calls).nlocals := by
  have hall (a : Assembler) (h : a.argcount ≤ a.nlocals) :
      (calls.foldl take a).argcount ≤ (calls.foldl take a).nlocals := by
    induction calls generalizing a with
    | nil => exact h
    | cons c calls ih => exact ih (a.take c) (take_roomy h c)
  exact hall { name } (UInt8.le_refl 0)

/-- The finished unit declares what its assembler does. -/
lemma build_declared {u : CodeUnit} (h : a.build = .ok u) :
    u.argcount = a.argcount ∧ u.nlocals = a.nlocals := by
  unfold build at h
  split at h
  · cases h
  · cases h
    exact ⟨rfl, rfl⟩

end AdaptiveVM.Assembler
