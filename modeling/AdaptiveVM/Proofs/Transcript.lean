import AdaptiveVM.Proofs.Assembly
import AdaptiveVM.Proofs.Execution
import AdaptiveVM.Proofs.Lines

/-!
Units as transcripts of the calls that wrote them.

An instruction is written once. Its opcode stays, and so does its operand unless it is a jump,
which points where it was last pointed to. The pools only grow, and what stands at an entry stays
there, so an operand goes on referring to the constant or the name it was written for, however many
come after it. Since no two entries are alike, equal constants and equal names share theirs.
-/

namespace AdaptiveVM

/-! ### Constants that cannot be told apart -/

namespace Value

lemma indistinguishable_refl (v : Value) : v.indistinguishable v := by
  cases v <;> simp [indistinguishable, equal]

lemma indistinguishable_comm (v x : Value) : v.indistinguishable x = x.indistinguishable v := by
  cases v <;> cases x <;> first | rfl | exact Bool.beq_comm ..

/-- The value can be used for the other one: a literal is that literal, and a float has the very
bits, so that there are two zeros. -/
structure StandsFor (x v : Value) : Prop where
  indistinguishable : x.indistinguishable v
  literal : v.isLiteral → x = v
  bits : ∀ y, v = .float y → ∃ z, x = .float z ∧ z.toBits = y.toBits

lemma standsFor_of_indistinguishable {x v : Value} (h : x.indistinguishable v) : x.StandsFor v where
  indistinguishable := h
  literal hv := eq_of_indistinguishable hv h
  bits y hy := by
    subst hy
    cases x with
    | float z => exact ⟨z, rfl, eq_of_beq h⟩
    | _ => cases h

end Value

namespace Assembler

/-! ### Calls -/

/-- The opcode of the instruction that a call adds. -/
def Call.opcode? : Call → Option Opcode
  | .emit op _ => some op
  | .emitOp op => some op
  | .loadConst _ => some .loadConst
  | .emitName op _ => some op
  | _ => none

/-- Where a call points the jump at a position. -/
def Call.target? (p : Nat) : Call → Option Nat
  | .patchJump position target => if position = p then some target else none
  | _ => none

/-- The instruction is the one that a call adds, in a unit that has its constants and names. -/
def Call.Yields (u : CodeUnit) : Call → Instr → Prop
  | .emit op arg, i => i = ⟨op, arg⟩
  | .emitOp op, i => i = ⟨op, 0⟩
  | .loadConst v, i => i.op = .loadConst ∧ ∃ x, u.constant? i.arg = some x ∧ x.StandsFor v
  | .emitName op key, i => i.op = op ∧ u.name? i.arg = some key
  | _, _ => False

/-- There is no room for what a call adds, or no jump where it points one. -/
def Call.Misplaced (a : Assembler) : Call → Prop
  | .addConstant v | .loadConst v =>
    256 ≤ a.constants.size ∧ ∀ x ∈ a.constants, x.indistinguishable v = false
  | .addName key | .emitName _ key => 256 ≤ a.names.size ∧ key ∉ a.names
  | .patchJump position target =>
    255 < target ∨ ∀ i, a.instrs[position]? = some i → i.op.isJump = false
  | _ => False

/-- The calls that succeed, in order. -/
def effective (a : Assembler) : List Call → List Call
  | [] => []
  | c :: calls =>
    match (a.perform c).1 with
    | .ok _ => c :: (a.take c).effective calls
    | .error _ => (a.take c).effective calls

/-- Where the jump at a position is last pointed to. -/
def lastTarget (a : Assembler) (p : Nat) (calls : List Call) : Option Nat :=
  ((a.effective calls).filterMap (Call.target? p)).getLast?

variable {a b : Assembler} {c : Call}

lemma effective_of_ok (h : (a.perform c).1 = .ok ()) (calls : List Call) :
    a.effective (c :: calls) = c :: (a.take c).effective calls := by rw [effective, h]

lemma effective_of_error {e : CodeFault} (h : (a.perform c).1 = .error e) (calls : List Call) :
    a.effective (c :: calls) = a.effective calls := by
  rw [effective, h]
  exact congrArg (effective · calls) (take_of_error h)

/-- The calls that fail could have been left out. -/
lemma foldl_take_effective (a : Assembler) (calls : List Call) :
    (a.effective calls).foldl take a = calls.foldl take a := by
  induction calls generalizing a with
  | nil => rfl
  | cons c calls ih =>
    rcases h : (a.perform c).1 with e | ⟨⟩
    · rw [effective_of_error h, List.foldl_cons, take_of_error h]
      exact ih a
    · rw [effective_of_ok h, List.foldl_cons, List.foldl_cons]
      exact ih (a.take c)

lemma lastTarget_of_ok (h : (a.perform c).1 = .ok ()) (p : Nat) (calls : List Call) :
    a.lastTarget p (c :: calls) = ((a.take c).lastTarget p calls).or (c.target? p) := by
  rw [lastTarget, effective_of_ok h, lastTarget]
  rcases ht : c.target? p with _ | t
  · rw [List.filterMap_cons_none ht, Option.or_none]
  · rw [List.filterMap_cons_some ht, List.getLast?_cons]
    rcases (((a.take c).effective calls).filterMap (Call.target? p)).getLast? with _ | t' <;> rfl

lemma lastTarget_of_error {e : CodeFault} (h : (a.perform c).1 = .error e) (p : Nat)
    (calls : List Call) : a.lastTarget p (c :: calls) = a.lastTarget p calls := by
  rw [lastTarget, effective_of_error h, lastTarget]

/-! ### Pools -/

/-- The pools fit into a byte, and no two entries are alike. -/
structure Pooled (a : Assembler) : Prop where
  constantsSize : a.constants.size ≤ 256
  namesSize : a.names.size ≤ 256
  constants : ∀ (i j : Nat) x y, a.constants[i]? = some x → a.constants[j]? = some y →
    x.indistinguishable y → i = j
  names : ∀ (i j : Nat) key, a.names[i]? = some key → a.names[j]? = some key → i = j

/-- What stands in the pools stays where it is. -/
structure Retains (a b : Assembler) : Prop where
  name : b.name = a.name
  constants : ∀ (k : Nat) v, a.constants[k]? = some v → b.constants[k]? = some v
  names : ∀ (k : Nat) key, a.names[k]? = some key → b.names[k]? = some key

lemma Pooled.of_eq (h : a.Pooled) (hconstants : b.constants = a.constants)
    (hnames : b.names = a.names) : b.Pooled := by
  refine ⟨?_, ?_, ?_, ?_⟩
  · exact hconstants ▸ h.constantsSize
  · exact hnames ▸ h.namesSize
  · exact hconstants ▸ h.constants
  · exact hnames ▸ h.names

namespace Retains

lemma of_eq (hname : b.name = a.name) (hconstants : b.constants = a.constants)
    (hnames : b.names = a.names) : a.Retains b :=
  ⟨hname, fun _ _ h => hconstants ▸ h, fun _ _ h => hnames ▸ h⟩

lemma refl (a : Assembler) : a.Retains a := of_eq rfl rfl rfl

lemma trans {d : Assembler} (hab : a.Retains b) (hbd : b.Retains d) : a.Retains d where
  name := hbd.name.trans hab.name
  constants k v h := hbd.constants k v (hab.constants k v h)
  names k key h := hbd.names k key (hab.names k key h)

lemma yields {i : Instr} (h : a.Retains b) (hi : c.Yields a.draft i) : c.Yields b.draft i := by
  cases c with
  | loadConst v =>
    obtain ⟨hop, x, hx, hv⟩ := hi
    exact ⟨hop, x, h.constants _ _ hx, hv⟩
  | emitName op key => exact ⟨hi.1, h.names _ _ hi.2⟩
  | _ => exact hi

end Retains

/-- The position of an entry that is new, or of an old one. -/
lemma eq_of_push {α : Type} {r : α → α → Prop} {xs : Array α} {x : α}
    (hold : ∀ (i j : Nat) y z, xs[i]? = some y → xs[j]? = some z → r y z → i = j)
    (hnew : ∀ y ∈ xs, ¬ r y x ∧ ¬ r x y) (i j : Nat) (y z : α)
    (hi : (xs.push x)[i]? = some y) (hj : (xs.push x)[j]? = some z) (hr : r y z) : i = j := by
  rw [Array.getElem?_push] at hi hj
  split at hi
  · next hilast =>
    cases hi
    split at hj
    · next hjlast => rw [hilast, hjlast]
    · exact absurd hr (hnew z (Array.mem_of_getElem? hj)).2
  · split at hj
    · cases hj
      exact absurd hr (hnew y (Array.mem_of_getElem? hi)).1
    · exact hold i j y z hi hj hr

/-- What it is to have the entry of a constant. -/
lemma internConstant_spec {v : Value} {k : UInt8} (h : a.internConstant v = (.ok k, b))
    (hp : a.Pooled) : b.instrs = a.instrs ∧ a.Retains b ∧ b.Pooled ∧
      ∃ x, b.constants[k.toNat]? = some x ∧ x.indistinguishable v := by
  rcases a.internConstant_cases v with ⟨i, x, hx, hsame, heq⟩ | ⟨hnew, ⟨hroom, heq⟩ | ⟨-, heq⟩⟩ <;>
    cases heq.symm.trans h
  · have hi : i < a.constants.size := (Array.getElem?_eq_some_iff.mp hx).1
    refine ⟨rfl, .refl a, hp, x, ?_, hsame⟩
    rw [toNat_toUInt8 (lt_of_lt_of_le hi hp.constantsSize), hx]
  · refine ⟨rfl, ⟨rfl, fun _ _ => getElem?_push_of_some, fun _ _ h => h⟩, ⟨?_, hp.namesSize,
      eq_of_push hp.constants fun x hx => ?_, hp.names⟩, v, ?_, v.indistinguishable_refl⟩
    · rw [Array.size_push]
      exact hroom
    · rw [v.indistinguishable_comm, hnew x hx]
      simp
    · rw [toNat_toUInt8 hroom, Array.getElem?_push_size]

lemma internName_spec {key : String} {k : UInt8} (h : a.internName key = (.ok k, b))
    (hp : a.Pooled) :
    b.instrs = a.instrs ∧ a.Retains b ∧ b.Pooled ∧ b.names[k.toNat]? = some key := by
  rcases a.internName_cases key with ⟨i, hkey, heq⟩ | ⟨hnew, ⟨hroom, heq⟩ | ⟨-, heq⟩⟩ <;>
    cases heq.symm.trans h
  · have hi : i < a.names.size := (Array.getElem?_eq_some_iff.mp hkey).1
    refine ⟨rfl, .refl a, hp, ?_⟩
    rw [toNat_toUInt8 (lt_of_lt_of_le hi hp.namesSize), hkey]
  · have hother : ∀ x ∈ a.names, x ≠ key := fun x hx hc => hnew (hc ▸ hx)
    have hold : ∀ (i j : Nat) x y, a.names[i]? = some x → a.names[j]? = some y → x = y → i = j :=
      fun i j x y hi hj hxy => hp.names i j x hi (hxy ▸ hj)
    refine ⟨rfl, ⟨rfl, fun _ _ h => h, fun _ _ => getElem?_push_of_some⟩, ⟨hp.constantsSize, ?_,
      hp.constants, fun i j x hi hj => ?_⟩, ?_⟩
    · rw [Array.size_push]
      exact hroom
    · exact eq_of_push hold (fun y hy => ⟨hother y hy, (hother y hy).symm⟩) i j x x hi hj rfl
    · rw [toNat_toUInt8 hroom, Array.getElem?_push_size]

/-! ### Instructions -/

end Assembler

/-- The instruction, pointed to a target if there is one. -/
def Instr.aimed (i : Instr) : Option Nat → Instr
  | some t => ⟨i.op, t.toUInt8⟩
  | none => i

lemma Instr.aimed_aimed (i : Instr) (t t' : Option Nat) :
    (i.aimed t).aimed t' = i.aimed (t'.or t) := by
  cases t <;> cases t' <;> rfl

@[simp] lemma Instr.op_aimed (i : Instr) (t : Option Nat) : (i.aimed t).op = i.op := by
  cases t <;> rfl

namespace Assembler

variable {a b : Assembler} {c : Call}

/-- What a call does that succeeds: it adds the instruction that is asked for, or it leaves all
instructions in their places, and only a jump is pointed elsewhere. -/
structure Effects (a : Assembler) (c : Call) (b : Assembler) : Prop where
  retains : a.Retains b
  pooled : b.Pooled
  adds : ∀ op, c.opcode? = some op →
    ∃ arg, b.instrs = a.instrs.push ⟨op, arg⟩ ∧ c.Yields b.draft ⟨op, arg⟩
  aims : c.opcode? = none → ∀ p : Nat,
    b.instrs[p]? = a.instrs[p]?.map (·.aimed (c.target? p))
  target : ∀ p t, c.target? p = some t →
    t ≤ 255 ∧ ∃ i, a.instrs[p]? = some i ∧ i.op.isJump = true

/-- The call is about something else than instructions. -/
lemma Effects.of_eq (hretains : a.Retains b) (hpooled : b.Pooled) (hinstrs : b.instrs = a.instrs)
    (hop : c.opcode? = none) (htarget : ∀ p, c.target? p = none) : a.Effects c b where
  retains := hretains
  pooled := hpooled
  adds op h := by
    rw [hop] at h
    cases h
  aims _ p := by
    rw [hinstrs, htarget]
    rcases a.instrs[p]? with _ | i <;> rfl
  target p t h := by
    rw [htarget] at h
    cases h

lemma Effects.of_push {op : Opcode} {arg : UInt8} (hretains : a.Retains b) (hpooled : b.Pooled)
    (hinstrs : b.instrs = a.instrs.push ⟨op, arg⟩) (hop : c.opcode? = some op)
    (htarget : ∀ p, c.target? p = none) (hyields : c.Yields b.draft ⟨op, arg⟩) :
    a.Effects c b where
  retains := hretains
  pooled := hpooled
  adds op' h := by
    cases hop.symm.trans h
    exact ⟨arg, hinstrs, hyields⟩
  aims h := by
    rw [hop] at h
    cases h
  target p t h := by
    rw [htarget] at h
    cases h

lemma retarget_effects (hp : a.Pooled) {position target : Nat}
    (h : a.retarget position target = (.ok (), b)) : a.Effects (.patchJump position target) b := by
  rcases a.retarget_cases position target with ⟨i, hnear, hi, hjump, heq⟩ | ⟨-, e, heq⟩ <;>
    cases heq.symm.trans h
  refine ⟨.of_eq rfl rfl rfl, hp.of_eq rfl rfl, fun op hop => (by cases hop), fun _ p => ?_,
    fun p t ht => ?_⟩
  · rw [Array.getElem?_setIfInBounds, Call.target?]
    split
    · next heq =>
      subst heq
      rw [if_pos (Array.getElem?_eq_some_iff.mp hi).1, hi]
      rfl
    · rcases a.instrs[p]? with _ | i <;> rfl
  · rw [Call.target?] at ht
    split at ht
    · next heq =>
      cases ht
      exact ⟨hnear, i, heq ▸ hi, hjump⟩
    · cases ht

/-- What every call does that succeeds. -/
lemma perform_effects (hp : a.Pooled) (h : (a.perform c).1 = .ok ()) : a.Effects c (a.take c) := by
  rw [take]
  cases c with
  | params count | locals count =>
    exact .of_eq (.of_eq rfl rfl rfl) (hp.of_eq rfl rfl) rfl rfl fun _ => rfl
  | emit op arg => exact .of_push (.of_eq rfl rfl rfl) (hp.of_eq rfl rfl) rfl rfl (fun _ => rfl) rfl
  | emitOp op => exact .of_push (.of_eq rfl rfl rfl) (hp.of_eq rfl rfl) rfl rfl (fun _ => rfl) rfl
  | addConstant v =>
    rcases hc : a.internConstant v with ⟨_ | k, b⟩ <;> simp only [perform, hc] at h ⊢
    · cases h
    · obtain ⟨hinstrs, hretains, hpooled, -⟩ := internConstant_spec hc hp
      exact .of_eq hretains hpooled hinstrs rfl fun _ => rfl
  | addName key =>
    rcases hc : a.internName key with ⟨_ | k, b⟩ <;> simp only [perform, hc] at h ⊢
    · cases h
    · obtain ⟨hinstrs, hretains, hpooled, -⟩ := internName_spec hc hp
      exact .of_eq hretains hpooled hinstrs rfl fun _ => rfl
  | loadConst v =>
    rcases hc : a.internConstant v with ⟨_ | k, b⟩ <;> simp only [perform, emitEntry, hc] at h ⊢
    · cases h
    · obtain ⟨hinstrs, hretains, hpooled, x, hx, hv⟩ := internConstant_spec hc hp
      exact .of_push (hretains.trans (.of_eq rfl rfl rfl)) (hpooled.of_eq rfl rfl)
        (congrArg (Array.push · _) hinstrs) rfl (fun _ => rfl)
        ⟨rfl, x, hx, Value.standsFor_of_indistinguishable hv⟩
  | emitName op key =>
    rcases hc : a.internName key with ⟨_ | k, b⟩ <;> simp only [perform, emitEntry, hc] at h ⊢
    · cases h
    · obtain ⟨hinstrs, hretains, hpooled, hkey⟩ := internName_spec hc hp
      exact .of_push (hretains.trans (.of_eq rfl rfl rfl)) (hpooled.of_eq rfl rfl)
        (congrArg (Array.push · _) hinstrs) rfl (fun _ => rfl) ⟨rfl, hkey⟩
  | patchJump position target => exact retarget_effects hp (Prod.ext h rfl)

/-! ### Failing calls -/

lemma internConstant_eq_error_iff {v : Value} :
    (∃ e, (a.internConstant v).1 = .error e) ↔
      256 ≤ a.constants.size ∧ ∀ x ∈ a.constants, x.indistinguishable v = false := by
  rcases a.internConstant_cases v with ⟨i, x, hx, hsame, heq⟩ | ⟨hnew, ⟨hroom, heq⟩ | ⟨hfull, heq⟩⟩
  · rw [heq]
    refine ⟨fun ⟨e, he⟩ => (by cases he), fun ⟨_, hnew⟩ => ?_⟩
    rw [hnew x (Array.mem_of_getElem? hx)] at hsame
    cases hsame
  · rw [heq]
    exact ⟨fun ⟨e, he⟩ => (by cases he), fun ⟨hfull, _⟩ => absurd hroom (Nat.not_lt.mpr hfull)⟩
  · rw [heq]
    exact ⟨fun _ => ⟨hfull, hnew⟩, fun _ => ⟨_, rfl⟩⟩

lemma internName_eq_error_iff {key : String} :
    (∃ e, (a.internName key).1 = .error e) ↔ 256 ≤ a.names.size ∧ key ∉ a.names := by
  rcases a.internName_cases key with ⟨i, hkey, heq⟩ | ⟨hnew, ⟨hroom, heq⟩ | ⟨hfull, heq⟩⟩
  · rw [heq]
    exact ⟨fun ⟨e, he⟩ => (by cases he), fun ⟨_, hnew⟩ => absurd (Array.mem_of_getElem? hkey) hnew⟩
  · rw [heq]
    exact ⟨fun ⟨e, he⟩ => (by cases he), fun ⟨hfull, _⟩ => absurd hroom (Nat.not_lt.mpr hfull)⟩
  · rw [heq]
    exact ⟨fun _ => ⟨hfull, hnew⟩, fun _ => ⟨_, rfl⟩⟩

lemma retarget_eq_error_iff {position target : Nat} :
    (∃ e, (a.retarget position target).1 = .error e) ↔
      255 < target ∨ ∀ i, a.instrs[position]? = some i → i.op.isJump = false := by
  rcases a.retarget_cases position target with ⟨i, hnear, hi, hjump, heq⟩ | ⟨hwrong, e, heq⟩
  · rw [heq]
    refine ⟨fun ⟨e, he⟩ => (by cases he), ?_⟩
    rintro (hfar | hnone)
    · exact absurd hfar (Nat.not_lt.mpr hnear)
    · cases (hnone i hi).symm.trans hjump
  · rw [heq]
    exact ⟨fun _ => hwrong, fun _ => ⟨e, rfl⟩⟩

lemma emitEntry_eq_error_iff {op : Opcode} {entry : Except CodeFault UInt8 × Assembler} :
    (∃ e, (emitEntry op entry).1 = .error e) ↔ ∃ e, entry.1 = .error e := by
  obtain ⟨e | i, b⟩ := entry
  · exact ⟨fun _ => ⟨e, rfl⟩, fun _ => ⟨e, rfl⟩⟩
  · exact ⟨fun ⟨e, he⟩ => (by cases he), fun ⟨e, he⟩ => (by cases he)⟩

/-- A call fails just when it is misplaced. -/
lemma perform_eq_error_iff : (∃ e, (a.perform c).1 = .error e) ↔ c.Misplaced a := by
  cases c with
  | params count | locals count | emit op arg | emitOp op =>
    exact ⟨fun ⟨e, he⟩ => (by cases he), False.elim⟩
  | addConstant v =>
    rw [Call.Misplaced, ← internConstant_eq_error_iff, perform]
    rcases (a.internConstant v).1 with e | k <;> simp [Except.map]
  | addName key =>
    rw [Call.Misplaced, ← internName_eq_error_iff, perform]
    rcases (a.internName key).1 with e | k <;> simp [Except.map]
  | loadConst v => exact emitEntry_eq_error_iff.trans internConstant_eq_error_iff
  | emitName op key => exact emitEntry_eq_error_iff.trans internName_eq_error_iff
  | patchJump position target => exact retarget_eq_error_iff

/-! ### Whole transcripts -/

lemma target?_of_opcode? {op : Opcode} (h : c.opcode? = some op) (p : Nat) :
    c.target? p = none := by
  cases c <;> first | rfl | cases h

/-- An instruction that is there stays in its place. -/
lemma Effects.getElem? (h : a.Effects c b) {p : Nat} {i : Instr} (hi : a.instrs[p]? = some i) :
    b.instrs[p]? = some (i.aimed (c.target? p)) := by
  rcases hop : c.opcode? with _ | op
  · rw [h.aims hop, hi]
    rfl
  · obtain ⟨arg, hinstrs, -⟩ := h.adds op hop
    rw [hinstrs, target?_of_opcode? hop]
    exact getElem?_push_of_some hi

lemma Effects.opcodes (h : a.Effects c b) :
    b.instrs.toList.map Instr.op = a.instrs.toList.map Instr.op ++ c.opcode?.toList := by
  rcases hop : c.opcode? with _ | op
  · rw [Option.toList_none, List.append_nil]
    refine List.ext_getElem? fun p => ?_
    rw [List.getElem?_map, List.getElem?_map, Array.getElem?_toList, Array.getElem?_toList,
      h.aims hop, Option.map_map]
    rcases a.instrs[p]? with _ | i
    · rfl
    · exact congrArg some (i.op_aimed _)
  · obtain ⟨arg, hinstrs, -⟩ := h.adds op hop
    rw [hinstrs, Array.toList_push, List.map_append]
    rfl

section Runs

variable (hp : a.Pooled) (calls : List Call)
include hp

lemma foldl_retains : a.Retains (calls.foldl take a) ∧ (calls.foldl take a).Pooled := by
  induction calls generalizing a with
  | nil => exact ⟨.refl a, hp⟩
  | cons c calls ih =>
    rcases h : (a.perform c).1 with e | ⟨⟩
    · rw [List.foldl_cons, take_of_error h]
      exact ih hp
    · have heffects := perform_effects hp h
      obtain ⟨hretains, hpooled⟩ := ih heffects.pooled
      exact ⟨heffects.retains.trans hretains, hpooled⟩

/-- The opcodes are those of the calls that succeed. -/
lemma foldl_opcodes : (calls.foldl take a).instrs.toList.map Instr.op =
    a.instrs.toList.map Instr.op ++ (a.effective calls).filterMap Call.opcode? := by
  induction calls generalizing a with
  | nil => simp [effective]
  | cons c calls ih =>
    rcases h : (a.perform c).1 with e | ⟨⟩
    · rw [List.foldl_cons, take_of_error h, effective_of_error h]
      exact ih hp
    · have heffects := perform_effects hp h
      rw [List.foldl_cons, effective_of_ok h, ih heffects.pooled, heffects.opcodes,
        List.append_assoc]
      rcases hop : c.opcode? with _ | op
      · rw [List.filterMap_cons_none hop]
        rfl
      · rw [List.filterMap_cons_some hop]
        rfl

/-- An instruction is pointed where it was last pointed to, and only jumps are. -/
lemma foldl_getElem? {p : Nat} {i : Instr} (hi : a.instrs[p]? = some i) :
    (calls.foldl take a).instrs[p]? = some (i.aimed (a.lastTarget p calls)) ∧
      ∀ t, a.lastTarget p calls = some t → t ≤ 255 ∧ i.op.isJump = true := by
  induction calls generalizing a i with
  | nil => exact ⟨hi, fun t ht => by cases ht⟩
  | cons c calls ih =>
    rcases h : (a.perform c).1 with e | ⟨⟩
    · rw [List.foldl_cons, take_of_error h, lastTarget_of_error h]
      exact ih hp hi
    · have heffects := perform_effects hp h
      obtain ⟨hlast, hjump⟩ := ih heffects.pooled (heffects.getElem? hi)
      rw [List.foldl_cons, lastTarget_of_ok h, hlast, Instr.aimed_aimed]
      refine ⟨rfl, fun t ht => ?_⟩
      rcases Option.or_eq_some_iff.mp ht with hlater | ⟨-, hhere⟩
      · rw [← Instr.op_aimed i (c.target? p)]
        exact hjump t hlater
      · obtain ⟨hnear, j, hj, hjump⟩ := heffects.target p t hhere
        cases hj.symm.trans hi
        exact ⟨hnear, hjump⟩

end Runs

lemma pooled_empty (name : String) : Pooled { name } :=
  ⟨Nat.zero_le _, Nat.zero_le _, fun i j x y hi => (by simp at hi), fun i j key hi => by simp at hi⟩

lemma written_append (name : String) (before calls : List Call) :
    written name (before ++ calls) = calls.foldl take (written name before) := by
  rw [written, List.foldl_append]
  rfl

/-- What a unit has to do with the calls that wrote it. -/
structure Transcribes (name : String) (calls : List Call) (u : CodeUnit) : Prop where
  named : u.name = name
  /-- The instructions are those of the calls that succeed, in order. -/
  opcodes : u.instrs.toList.map Instr.op = (effective { name } calls).filterMap Call.opcode?
  /-- A call that succeeds and adds an instruction has added the one that is asked for. The
  instruction is still there, and its operand is the same unless it is a jump, which goes where it
  was last pointed to. -/
  instrs : ∀ before c after b, calls = before ++ c :: after →
    (written name before).perform c = (.ok (), b) → c.opcode?.isSome →
    ∃ i, c.Yields u i ∧ b.instrs[(written name before).position]? = some i ∧
      ∃ arg, u.instr? (written name before).position = some ⟨i.op, arg⟩ ∧
        (i.op.isJump = false → arg = i.arg) ∧
        arg.toNat = (b.lastTarget (written name before).position after).getD i.arg.toNat
  /-- A call fails just when it is misplaced. -/
  fails : ∀ before c after, calls = before ++ c :: after →
    ((∃ e, ((written name before).perform c).1 = .error e) ↔ c.Misplaced (written name before))
  /-- A call that fails leaves the assembler as it was. -/
  unchanged : ∀ before c after e, calls = before ++ c :: after →
    ((written name before).perform c).1 = .error e →
    ((written name before).perform c).2 = written name before
  /-- Calls that fail could have been left out. -/
  omits : written name (effective { name } calls) = written name calls
  constantsSize : u.constants.size ≤ 256
  namesSize : u.names.size ≤ 256
  constants : ∀ (i j : Nat) x y, u.constants[i]? = some x → u.constants[j]? = some y →
    x.indistinguishable y → i = j
  names : ∀ (i j : Nat) key, u.names[i]? = some key → u.names[j]? = some key → i = j
  params : u.argcount ≤ u.nlocals

lemma build_eq_ok_iff {u : CodeUnit} : a.build = .ok u ↔ u = a.draft ∧ u.Checked := by
  refine ⟨fun h => ⟨?_, build_checked h⟩, fun ⟨hu, hchecked⟩ => ?_⟩
  · unfold build at h
    split at h
    · cases h
    · cases h
      rfl
  · subst hu
    have hnone : a.instrs.findIdx? (!a.accepts ·) = none := by
      refine Array.findIdx?_eq_none_iff.mpr fun i hi => ?_
      have hoperand := hchecked i hi
      unfold accepts
      rcases hk : i.op.operandKind <;> simp only [hk] at hoperand ⊢ <;> simp <;> exact hoperand
    rw [build, hnone]
    rfl

/-- **Units are faithful transcripts of their calls**, in any order and with any failures among
them. What has been written is a unit just when every operand refers to something, and the unit is
then made of what the calls asked for that succeeded. -/
theorem written_transcribes (name : String) (calls : List Call) :
    let a := written name calls
    (∀ u, a.build = .ok u ↔ u = a.draft ∧ u.Checked) ∧
      ∀ u, a.build = .ok u → Transcribes name calls u := by
  intro a
  refine ⟨fun u => build_eq_ok_iff, fun u hu => ?_⟩
  obtain ⟨rfl, -⟩ := build_eq_ok_iff.mp hu
  obtain ⟨hretains, hpooled⟩ := foldl_retains (pooled_empty name) calls
  refine ⟨hretains.name, foldl_opcodes (pooled_empty name) calls,
    fun before c after b hcalls hb hop => ?_, fun before c after hcalls => perform_eq_error_iff,
    fun before c after e hcalls he => take_of_error he, foldl_take_effective _ calls,
    hpooled.constantsSize, hpooled.namesSize, hpooled.constants, hpooled.names,
    written_roomy name calls⟩
  obtain ⟨op, hop⟩ := Option.isSome_iff_exists.mp hop
  have hbefore : (written name before).Pooled := (foldl_retains (pooled_empty name) before).2
  have htake : (written name before).take c = b := congrArg Prod.snd hb
  have heffects := perform_effects hbefore (congrArg Prod.fst hb)
  rw [htake] at heffects
  obtain ⟨arg, hinstrs, hyields⟩ := heffects.adds op hop
  have hlast : b.instrs[(written name before).position]? = some ⟨op, arg⟩ := by
    rw [hinstrs, position, Array.getElem?_push_size]
  have ha : a = after.foldl take b := by
    rw [show a = written name (before ++ c :: after) by rw [← hcalls], written_append,
      List.foldl_cons, htake]
  obtain ⟨hthere, hjump⟩ := foldl_getElem? heffects.pooled after hlast
  refine ⟨_, ?_, hlast, ?_⟩
  · rw [ha]
    exact (foldl_retains heffects.pooled after).1.yields hyields
  · rw [ha]
    rcases ht : b.lastTarget (written name before).position after with _ | t
    · rw [ht] at hthere
      exact ⟨arg, hthere, fun _ => rfl, rfl⟩
    · obtain ⟨hnear, hisJump⟩ := hjump t ht
      rw [ht] at hthere
      exact ⟨t.toUInt8, hthere, fun h => (by rw [hisJump] at h; cases h),
        toNat_toUInt8 (by omega)⟩

/-- Two of the calls fail, the jump is pointed twice, and the two names share their entry. -/
theorem written_transcribes_failing_calls :
    let calls : List Call := [.emitOp .jump, .emitName .loadGlobal "x", .patchJump 1 0,
      .patchJump 0 256, .patchJump 0 2, .emitName .loadAttr "x", .patchJump 0 3]
    ∃ u, (written "main" calls).build = .ok u ∧ Transcribes "main" calls u ∧
      u.instrs = #[⟨.jump, 3⟩, ⟨.loadGlobal, 0⟩, ⟨.loadAttr, 0⟩] := by
  intro calls
  have hnone : (written "main" calls).instrs.findIdx? (!(written "main" calls).accepts ·) =
      none := by decide +kernel
  have hbuild : (written "main" calls).build = .ok (written "main" calls).draft := by
    rw [build, hnone]
    rfl
  exact ⟨_, hbuild, (written_transcribes "main" calls).2 _ hbuild, by decide +kernel⟩

end Assembler

end AdaptiveVM
