import AdaptiveVM.Machine.Generic
import AdaptiveVM.Proofs.Assembly

/-!
Units and the lines they were assembled from.

The assembler shares entries of its pools between equal constants and equal names, so which entry an
instruction refers to depends on all lines before it; what stands there does not. A unit *renders*
some lines if at every position it has the instruction of the line there, and the operand refers to
the constant or the name that the line gives. What an instruction asks of the machine can then be
read off its line.
-/

namespace AdaptiveVM

open Assembler (Line)

/-! ### Rendering -/

/-- At a position stands the instruction of a line. -/
def CodeUnit.Carries (u : CodeUnit) (p : Nat) : Line → Prop
  | .op op arg => u.instr? p = some ⟨op, arg⟩
  | .const v => ∃ i, u.instr? p = some ⟨.loadConst, i⟩ ∧ u.constant? i = some v
  | .name op key =>
    op.operandKind = .name ∧ ∃ i, u.instr? p = some ⟨op, i⟩ ∧ u.name? i = some key

/-- The unit has the instructions of some lines. -/
structure CodeUnit.Renders (u : CodeUnit) (lines : List Line) : Prop where
  size : u.instrs.size = lines.length
  carries : ∀ p l, lines[p]? = some l → u.Carries p l

/-- Only a call is assembled to a call. -/
lemma CodeUnit.Renders.line_of_call {u : CodeUnit} {lines : List Line} (hr : u.Renders lines)
    {p : Nat} {i : Instr} (hi : u.instr? p = some i) (hop : i.op = .call) :
    lines[p]? = some (.op .call i.arg) := by
  have hlt : p < lines.length := by
    rw [← hr.size]
    exact (Array.getElem?_eq_some_iff.mp hi).1
  have hcarries := hr.carries p lines[p] (List.getElem?_eq_getElem hlt)
  rw [List.getElem?_eq_getElem hlt]
  rcases hl : lines[p] with ⟨op, arg⟩ | v | ⟨op, key⟩
  · rw [hl] at hcarries
    cases hcarries.symm.trans hi
    obtain rfl : op = .call := hop
    rfl
  · rw [hl] at hcarries
    obtain ⟨k, hk, -⟩ := hcarries
    cases hk.symm.trans hi
    cases hop
  · rw [hl] at hcarries
    obtain ⟨hname, k, hk, -⟩ := hcarries
    cases hk.symm.trans hi
    obtain rfl : op = .call := hop
    cases hname

/-- Of a literal there is only one that cannot be told apart from it. -/
def Value.isLiteral : Value → Bool
  | .none | .bool _ | .int _ | .str _ => true
  | _ => false

lemma Value.eq_of_indistinguishable {v x : Value} (hv : v.isLiteral)
    (hx : x.indistinguishable v) : x = v := by
  cases v with
  | none => cases x <;> first | rfl | cases hx
  | bool b =>
    cases x with
    | bool c => exact congrArg _ (eq_of_beq hx)
    | _ => cases hx
  | int n =>
    cases x with
    | int k => exact congrArg _ (eq_of_beq hx)
    | _ => cases hx
  | str s =>
    cases x with
    | str t => exact congrArg _ (eq_of_beq hx)
    | _ => cases hx
  | _ => cases hv

/-- The operand of a line refers to something, in a unit with some local slots and of some size. -/
def Assembler.Line.fits (nlocals : UInt8) (size : Nat) : Line → Bool
  | .op opcode arg =>
    match opcode.operandKind with
    | .none | .argCount => true
    | .const | .name => false
    | .local => arg < nlocals
    | .target => arg.toNat ≤ size
  | .const v => v.isLiteral
  | .name opcode _ => opcode.operandKind = .name

namespace Assembler

variable {a a' : Assembler}

/-- The unit so far, as if it were finished. -/
def draft (a : Assembler) : CodeUnit :=
  { name := a.name
    instrs := a.instrs
    constants := a.constants
    names := a.names
    argcount := a.argcount
    nlocals := a.nlocals }

/-- What is there stays, and `count` instructions and at most as many entries are new. -/
structure Appends (a a' : Assembler) (count : Nat) : Prop where
  name : a'.name = a.name
  argcount : a'.argcount = a.argcount
  nlocals : a'.nlocals = a.nlocals
  size : a'.instrs.size = a.instrs.size + count
  instrs : ∀ (p : Nat) i, a.instrs[p]? = some i → a'.instrs[p]? = some i
  constants : ∀ (k : Nat) v, a.constants[k]? = some v → a'.constants[k]? = some v
  names : ∀ (k : Nat) key, a.names[k]? = some key → a'.names[k]? = some key
  constantsSize : a'.constants.size ≤ a.constants.size + count
  namesSize : a'.names.size ≤ a.names.size + count

namespace Appends

lemma refl (a : Assembler) : Appends a a 0 where
  name := rfl
  argcount := rfl
  nlocals := rfl
  size := rfl
  instrs _ _ hi := hi
  constants _ _ hv := hv
  names _ _ hk := hk
  constantsSize := le_rfl
  namesSize := le_rfl

lemma trans {a'' : Assembler} {j k : Nat} (hj : Appends a a' j) (hk : Appends a' a'' k) :
    Appends a a'' (j + k) where
  name := hk.name.trans hj.name
  argcount := hk.argcount.trans hj.argcount
  nlocals := hk.nlocals.trans hj.nlocals
  size := by
    have h := hj.size
    have h' := hk.size
    omega
  instrs p i hi := hk.instrs p i (hj.instrs p i hi)
  constants i v hv := hk.constants i v (hj.constants i v hv)
  names i key hn := hk.names i key (hj.names i key hn)
  constantsSize := by
    have h := hj.constantsSize
    have h' := hk.constantsSize
    omega
  namesSize := by
    have h := hj.namesSize
    have h' := hk.namesSize
    omega

lemma carries {count p : Nat} {l : Line} (h : Appends a a' count) (hl : a.draft.Carries p l) :
    a'.draft.Carries p l := by
  cases l with
  | op op arg => exact h.instrs p _ hl
  | const v =>
    obtain ⟨i, hi, hv⟩ := hl
    exact ⟨i, h.instrs p _ hi, h.constants _ _ hv⟩
  | name op key =>
    obtain ⟨hop, i, hi, hk⟩ := hl
    exact ⟨hop, i, h.instrs p _ hi, h.names _ _ hk⟩

end Appends

lemma getElem?_push_of_some {α : Type} {xs : Array α} {k : Nat} {x y : α} (h : xs[k]? = some x) :
    (xs.push y)[k]? = some x := by
  have hlt : k < xs.size := (Array.getElem?_eq_some_iff.mp h).1
  rw [Array.getElem?_push, if_neg (by omega)]
  exact h

lemma emit_appends (a : Assembler) (op : Opcode) (arg : UInt8) : Appends a (a.emit op arg) 1 where
  name := rfl
  argcount := rfl
  nlocals := rfl
  size := Array.size_push ..
  instrs _ _ hi := getElem?_push_of_some hi
  constants _ _ hv := hv
  names _ _ hk := hk
  constantsSize := Nat.le_succ _
  namesSize := Nat.le_succ _

lemma emit_last (a : Assembler) (op : Opcode) (arg : UInt8) :
    (a.emit op arg).draft.instr? a.instrs.size = some ⟨op, arg⟩ := by
  show (a.instrs.push ⟨op, arg⟩)[a.instrs.size]? = _
  rw [Array.getElem?_push_size]

lemma toNat_toUInt8 {k : Nat} (hk : k < 256) : k.toUInt8.toNat = k := by
  simp [Nat.mod_eq_of_lt hk]

lemma loadConst_ok (a : Assembler) {v : Value} (hv : v.isLiteral) (hroom : a.constants.size < 256) :
    ∃ a', a.loadConst v = .ok a' ∧ Appends a a' 1 ∧ a'.draft.Carries a.instrs.size (.const v) := by
  rcases a.internConstant_cases v with ⟨k, x, hx, hsame, heq⟩ | ⟨-, ⟨-, heq⟩ | ⟨hfull, -⟩⟩
  · -- the entry of an equal constant
    have hk : k < a.constants.size := (Array.getElem?_eq_some_iff.mp hx).1
    refine ⟨_, by rw [loadConst, heq]; rfl, emit_appends .., _, emit_last .., ?_⟩
    show a.constants[k.toUInt8.toNat]? = some v
    rw [toNat_toUInt8 (by omega), hx, Value.eq_of_indistinguishable hv hsame]
  · -- a new entry
    refine ⟨emit { a with constants := a.constants.push v } .loadConst a.constants.size.toUInt8,
      by rw [loadConst, heq]; rfl, ⟨rfl, rfl, rfl, Array.size_push .., fun p i hi => ?_,
        fun k x hx => ?_, fun _ _ hk => hk, ?_, Nat.le_succ _⟩, _, emit_last .., ?_⟩
    · exact getElem?_push_of_some hi
    · exact getElem?_push_of_some hx
    · exact (Array.size_push ..).le
    · show (a.constants.push v)[a.constants.size.toUInt8.toNat]? = some v
      rw [toNat_toUInt8 hroom, Array.getElem?_push_size]
  · exact absurd hroom (Nat.not_lt.mpr hfull)

lemma emitName_ok (a : Assembler) {op : Opcode} (hop : op.operandKind = .name) (key : String)
    (hroom : a.names.size < 256) :
    ∃ a', a.emitName op key = .ok a' ∧ Appends a a' 1 ∧
      a'.draft.Carries a.instrs.size (.name op key) := by
  rcases a.internName_cases key with ⟨k, hkey, heq⟩ | ⟨-, ⟨-, heq⟩ | ⟨hfull, -⟩⟩
  · have hk : k < a.names.size := (Array.getElem?_eq_some_iff.mp hkey).1
    refine ⟨_, by rw [emitName, heq]; rfl, emit_appends .., hop, _, emit_last .., ?_⟩
    show a.names[k.toUInt8.toNat]? = some key
    rw [toNat_toUInt8 (by omega), hkey]
  · refine ⟨emit { a with names := a.names.push key } op a.names.size.toUInt8,
      by rw [emitName, heq]; rfl, ⟨rfl, rfl, rfl, Array.size_push .., fun p i hi => ?_,
        fun _ _ hv => hv, fun k x hx => ?_, Nat.le_succ _, ?_⟩, hop, _, emit_last .., ?_⟩
    · exact getElem?_push_of_some hi
    · exact getElem?_push_of_some hx
    · exact (Array.size_push ..).le
    · show (a.names.push key)[a.names.size.toUInt8.toNat]? = some key
      rw [toNat_toUInt8 hroom, Array.getElem?_push_size]
  · exact absurd hroom (Nat.not_lt.mpr hfull)

/-- A line that fits is added, and the instruction is the one of the line. -/
lemma addLine_ok (a : Assembler) {l : Line} {nlocals : UInt8} {size : Nat}
    (hl : l.fits nlocals size)
    (hconstants : a.constants.size < 256) (hnames : a.names.size < 256) :
    ∃ a', a.addLine l = .ok a' ∧ Appends a a' 1 ∧ a'.draft.Carries a.instrs.size l := by
  cases l with
  | op op arg => exact ⟨_, rfl, emit_appends .., emit_last ..⟩
  | const v => exact loadConst_ok a hl hconstants
  | name op key => exact emitName_ok a (of_decide_eq_true hl) key hnames

/-- Lines that fit are added in turn. -/
lemma addLines_ok (a : Assembler) (lines : List Line) {nlocals : UInt8} {size : Nat}
    (hfits : ∀ l ∈ lines, l.fits nlocals size)
    (hconstants : a.constants.size + lines.length ≤ 256)
    (hnames : a.names.size + lines.length ≤ 256) :
    ∃ a', a.addLines lines = .ok a' ∧ Appends a a' lines.length ∧
      ∀ p l, lines[p]? = some l → a'.draft.Carries (a.instrs.size + p) l := by
  induction lines generalizing a with
  | nil => exact ⟨a, rfl, .refl a, fun p l hl => by cases hl⟩
  | cons l lines ih =>
    rw [List.length_cons] at hconstants hnames
    obtain ⟨b, hb, hab, hl⟩ :=
      addLine_ok a (hfits l List.mem_cons_self) (by omega) (by omega)
    have hsize := hab.size
    have hc := hab.constantsSize
    have hn := hab.namesSize
    obtain ⟨c, hc, hbc, hrest⟩ :=
      ih b (fun l hl => hfits l (List.mem_cons_of_mem _ hl)) (by omega) (by omega)
    refine ⟨c, by rw [addLines, hb]; exact hc, ?_, fun p l' hp => ?_⟩
    · rw [List.length_cons, Nat.add_comm]
      exact hab.trans hbc
    · cases p with
      | zero =>
        obtain rfl := Option.some.inj hp
        exact hbc.carries hl
      | succ p =>
        have hcarry := hrest p l' hp
        rwa [hsize, Nat.add_assoc, Nat.add_comm 1 p] at hcarry

/-- What carries lines that fit is accepted. -/
lemma accepts_of_carries {p : Nat} {l : Line} {i : Instr} (hl : a.draft.Carries p l)
    (hfits : l.fits a.nlocals a.instrs.size) (hi : a.instrs[p]? = some i) : a.accepts i := by
  cases l with
  | op op arg =>
    obtain rfl := Option.some.inj (hi.symm.trans hl)
    dsimp only [Line.fits] at hfits
    unfold accepts
    rcases hk : op.operandKind <;> simp only [hk] at hfits ⊢ <;>
      first | rfl | exact hfits | cases hfits
  | const v =>
    obtain ⟨k, hk, hv⟩ := hl
    obtain rfl := Option.some.inj (hi.symm.trans hk)
    exact decide_eq_true (Array.getElem?_eq_some_iff.mp hv).1
  | name op key =>
    obtain ⟨hop, k, hk, hv⟩ := hl
    obtain rfl := Option.some.inj (hi.symm.trans hk)
    unfold accepts
    simp only [hop]
    exact decide_eq_true (Array.getElem?_eq_some_iff.mp hv).1

/-- **Lines that fit are assembled** into a unit that renders them. -/
theorem assemble_renders (name : String) (params locals : UInt8) (lines : List Line)
    (hlength : lines.length ≤ 256)
    (hfits : ∀ l ∈ lines, l.fits (max locals params) lines.length) :
    ∃ u, assemble name params locals lines = .ok u ∧ u.name = name ∧ u.argcount = params ∧
      u.nlocals = max locals params ∧ u.Renders lines := by
  obtain ⟨a, ha, happ, hcarries⟩ :=
    addLines_ok ((({ name := name } : Assembler).params params).locals locals) lines hfits
      (by simpa [Assembler.params, Assembler.locals] using hlength)
      (by simpa [Assembler.params, Assembler.locals] using hlength)
  have hsize : a.instrs.size = lines.length := happ.size.trans (Nat.zero_add _)
  have hnlocals : a.nlocals = max locals params := happ.nlocals
  have hrenders : a.draft.Renders lines := by
    refine ⟨hsize, fun p l hl => ?_⟩
    have hcarry := hcarries p l hl
    rwa [show ((({ name := name } : Assembler).params params).locals locals).instrs.size + p = p
      from Nat.zero_add p] at hcarry
  -- no operand is refused
  have hnone : a.instrs.findIdx? (!a.accepts ·) = none := by
    refine Array.findIdx?_eq_none_iff.mpr fun i hi => ?_
    obtain ⟨p, hp, rfl⟩ := Array.mem_iff_getElem.mp hi
    obtain ⟨l, hl⟩ : ∃ l, lines[p]? = some l :=
      ⟨_, List.getElem?_eq_getElem (lt_of_lt_of_eq hp hsize)⟩
    have hfit := hfits l (List.mem_of_getElem? hl)
    rw [← hnlocals, ← hsize] at hfit
    have hok := accepts_of_carries (hrenders.carries p l hl) hfit (Array.getElem?_eq_getElem hp)
    simp [hok]
  refine ⟨a.draft, ?_, happ.name, happ.argcount, hnlocals, hrenders⟩
  rw [assemble, ha]
  show a.build = _
  rw [build, hnone]
  rfl

end Assembler

/-! ### Effects -/

namespace Frame

variable {f : Frame} {h : Heap} {b : Ref .mod} {u u' : CodeUnit} {op : Opcode} {arg arg' : UInt8}
  {e : Effect}

/-- What an instruction asks for does not depend on the unit, apart from its constant or name. -/
lemma effect_congr (hconst : op.operandKind = .const → u'.constant? arg' = u.constant? arg)
    (hname : op.operandKind = .name → u'.name? arg' = u.name? arg)
    (harg : op.operandKind ≠ .const → op.operandKind ≠ .name → arg' = arg)
    (he : f.effect h b u op arg = .ok e) : f.effect h b u' op arg' = .ok e := by
  have hself (hc : op.operandKind ≠ .const) (hn : op.operandKind ≠ .name) : arg' = arg :=
    harg hc hn
  cases op with
  | nop | jump =>
    obtain rfl := hself (by decide) (by decide)
    exact he
  | pop | dup | binaryAdd | binarySub | compareLt | jumpIfFalse | call | ret =>
    obtain rfl := hself (by decide) (by decide)
    simp only [effect] at he ⊢
    split at he
    · exact he
    · cases he
  | loadFast =>
    obtain rfl := hself (by decide) (by decide)
    simp only [effect] at he ⊢
    split at he
    · exact he
    · cases he
    · cases he
  | storeFast =>
    obtain rfl := hself (by decide) (by decide)
    simp only [effect] at he ⊢
    split at he
    · split at he
      · next hlt =>
        rw [if_pos hlt]
        exact he
      · cases he
    · cases he
  | loadConst =>
    simp only [effect, hconst rfl] at he ⊢
    split at he
    · exact he
    · cases he
  | loadGlobal =>
    simp only [effect, hname rfl] at he ⊢
    split at he
    · exact he
    · cases he
  | storeGlobal | loadAttr | storeAttr =>
    simp only [effect, hname rfl] at he ⊢
    split at he
    · split at he
      · exact he
      · cases he
    · cases he

end Frame

namespace Assembler.Line

/-- What the instruction of a line asks of the machine. -/
def effect (f : Frame) (h : Heap) (b : Ref .mod) : Line → Except Error Effect
  | .op opcode arg => f.effect h b {} opcode arg
  | .const v => f.effect h b { constants := #[v] } .loadConst 0
  | .name opcode key => f.effect h b { names := #[key] } opcode 0

end Assembler.Line

/-- The instruction at a position asks for what its line does. -/
lemma CodeUnit.Carries.effect {u : CodeUnit} {p : Nat} {l : Line} {f : Frame} {h : Heap}
    {b : Ref .mod} {e : Effect} (hl : u.Carries p l) (he : l.effect f h b = .ok e) :
    ∃ i, u.instr? p = some i ∧ f.effect h b u i.op i.arg = .ok e := by
  cases l with
  | op op arg =>
    refine ⟨⟨op, arg⟩, hl, Frame.effect_congr (fun hop => ?_) (fun hop => ?_) (fun _ _ => rfl) he⟩
    · cases op <;> cases hop
      cases he
    · cases op <;> cases hop <;> cases he
  | const v =>
    obtain ⟨i, hi, hv⟩ := hl
    have hconst : u.constant? i = CodeUnit.constant? { constants := #[v] } 0 := hv
    exact ⟨_, hi, Frame.effect_congr (fun _ => hconst) (fun hop => by cases hop)
      (fun hop _ => absurd rfl hop) he⟩
  | name op key =>
    obtain ⟨hop, i, hi, hk⟩ := hl
    have hname : u.name? i = CodeUnit.name? { names := #[key] } 0 := hk
    exact ⟨_, hi, Frame.effect_congr (fun hc => by rw [hop] at hc; cases hc) (fun _ => hname)
      (fun _ hn => absurd hop hn) he⟩

end AdaptiveVM
