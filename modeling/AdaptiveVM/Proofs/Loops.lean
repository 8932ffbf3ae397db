import AdaptiveVM.Proofs.Walks
import AdaptiveVM.Workload

/-!
Counted loops.

A counted loop goes round for every natural number below its bound. What its body makes of the heap
and of the local slots in one round is all that has to be shown of it: the rest of a round, which is
the test, the increment and the jump back, is the same for all bodies.
-/

namespace AdaptiveVM

open Assembler (Line)
open Workload (countedLoop)

/-! ### Integers -/

namespace Operation

/-- An integer of the program, by its value. -/
def whole (k : Int) : Value := .int (Int64.ofInt k)

/-- The integers that a program can have. -/
def Fits (k : Int) : Prop := -9223372036854775808 ≤ k ∧ k ≤ 9223372036854775807

instance (k : Int) : Decidable (Fits k) := inferInstanceAs (Decidable (_ ∧ _))

lemma toInt_ofInt {k : Int} (hk : Fits k) : (Int64.ofInt k).toInt = k :=
  Int64.toInt_ofInt_of_le hk.1 (by have := hk.2; omega)

lemma fits_toInt (n : Int64) : Fits n.toInt := by
  have hlow := n.le_toInt
  have hhigh := n.toInt_lt
  constructor <;> omega

lemma fit?_of_fits {k : Int} (hk : Fits k) : fit? k = some (Int64.ofInt k) := if_pos hk

lemma fit?_eq_none {k : Int} (hk : ¬ Fits k) : fit? k = none := if_neg hk

lemma add_whole {j k : Int} (hj : Fits j) (hk : Fits k) (hjk : Fits (j + k)) :
    add (whole j) (whole k) = .ok (whole (j + k)) := by
  show addInts (Int64.ofInt j) (Int64.ofInt k) = _
  rw [addInts, toInt_ofInt hj, toInt_ofInt hk, fit?_of_fits hjk]
  rfl

lemma sub_whole {j k : Int} (hj : Fits j) (hk : Fits k) (hjk : Fits (j - k)) :
    sub (whole j) (whole k) = .ok (whole (j - k)) := by
  simp only [whole, sub]
  rw [toInt_ofInt hj, toInt_ofInt hk, fit?_of_fits hjk]

lemma lessThan_whole {j k : Int} (hj : Fits j) (hk : Fits k) :
    lessThan (whole j) (whole k) = .ok (.bool (decide (j < k))) := by
  have hlt : Int64.ofInt j < Int64.ofInt k ↔ j < k := by
    rw [Int64.lt_iff_toInt_lt, toInt_ofInt hj, toInt_ofInt hk]
  show Except.ok (Value.bool (decide (Int64.ofInt j < Int64.ofInt k))) = _
  rw [decide_eq_decide.mpr hlt]

end Operation

open Operation (whole Fits)

/-! ### Placed lines -/

/-- Some lines stand from a position on. -/
def PlacedAt (lines : List Line) (start : Nat) (block : List Line) : Prop :=
  ∀ p l, block[p]? = some l → lines[start + p]? = some l

namespace PlacedAt

variable {lines block block' : List Line} {start : Nat}

lemma middle (before block after : List Line) :
    PlacedAt (before ++ block ++ after) before.length block := by
  intro p l hl
  have hlt : p < block.length := (List.getElem?_eq_some_iff.mp hl).1
  rw [List.append_assoc, List.getElem?_append_right (by omega), Nat.add_sub_cancel_left,
    List.getElem?_append_left hlt]
  exact hl

lemma right (h : PlacedAt lines start (block ++ block')) :
    PlacedAt lines (start + block.length) block' := by
  intro p l hl
  have hnext := h (block.length + p) l (by
    rw [List.getElem?_append_right (by omega), Nat.add_sub_cancel_left]
    exact hl)
  rwa [← Nat.add_assoc] at hnext

end PlacedAt

/-! ### The loop -/

section

variable {lines body : List Line} {start : Nat} {counter : UInt8} {n : Int64} {h : Heap}
  {b : Ref .mod} {u : Nat} {g : Ref .mod} {locals : Array (Option Value)} {i : Nat}

/-- The counter is set to zero. -/
lemma walk_init (hloop : PlacedAt lines start (countedLoop start counter n body))
    (hc : counter.toNat < locals.size) :
    (Frame.resting u g locals start).walk lines h b 2 =
      some (.resting u g (locals.setIfInBounds counter.toNat (some (whole 0))) (start + 2)) := by
  have h0 : lines[start]? = some (.const (.int 0)) := hloop 0 _ rfl
  have h1 : lines[start + 1]? = some (.op .storeFast counter) := hloop 1 _ rfl
  rw [Frame.resting, Frame.walk_const h0, Frame.walk_storeFast h1 hc]
  rfl

/-- The counter is compared with the bound. -/
lemma walk_test (hloop : PlacedAt lines start (countedLoop start counter n body))
    (hfit : start + body.length + 11 < 256)
    (hi : locals[counter.toNat]? = some (some (whole i))) (hle : Fits i) :
    (Frame.resting u g locals (start + 2)).walk lines h b 4 =
      some (.resting u g locals
        (if (i : Int) < n.toInt then start + 6 else start + body.length + 11)) := by
  have h0 : lines[start + 2]? = some (.op .loadFast counter) := hloop 2 _ rfl
  have h1 : lines[start + 3]? = some (.const (.int n)) := hloop 3 _ rfl
  have h2 : lines[start + 4]? = some (.op .compareLt 0) := hloop 4 _ rfl
  have h3 : lines[start + 5]? =
      some (.op .jumpIfFalse (start + body.length + 11).toUInt8) := hloop 5 _ rfl
  have hn : Value.int n = whole n.toInt := by rw [whole, Int64.ofInt_toInt]
  have hlt := Operation.lessThan_whole hle (Operation.fits_toInt n)
  rw [← hn] at hlt
  have hexit : (start + body.length + 11).toUInt8.toNat = start + body.length + 11 :=
    Assembler.toNat_toUInt8 hfit
  rw [Frame.resting, Frame.walk_loadFast h0 hi, Frame.walk_const h1, Frame.walk_compute h2 rfl hlt,
    Frame.walk_jumpIfFalse h3, hexit]
  simp only [Frame.walk, Frame.resting, Value.isTruthy, decide_eq_true_eq]

/-- The counter goes up by one, and the loop starts over. -/
lemma walk_again (hloop : PlacedAt lines start (countedLoop start counter n body))
    (hfit : start + body.length + 11 < 256)
    (hi : locals[counter.toNat]? = some (some (whole i))) (hnext : Fits (i + 1)) :
    (Frame.resting u g locals (start + 6 + body.length)).walk lines h b 5 =
      some (.resting u g (locals.setIfInBounds counter.toNat (some (whole (i + 1))))
        (start + 2)) := by
  have hlast : PlacedAt lines (start + 6 + body.length)
      [.op .loadFast counter, .const (.int 1), .op .binaryAdd 0, .op .storeFast counter,
        .op .jump (start + 2).toUInt8] := by
    intro p l hl
    have hat := PlacedAt.right hloop p l hl
    rwa [List.length_append, ← Nat.add_assoc] at hat
  have h0 : lines[start + 6 + body.length]? = some (.op .loadFast counter) := hlast 0 _ rfl
  have hc : counter.toNat < locals.size := (Array.getElem?_eq_some_iff.mp hi).1
  have hadd : Operation.add (whole i) (.int 1) = .ok (whole (i + 1)) :=
    Operation.add_whole (j := i) (k := 1) ⟨by omega, by have := hnext.2; omega⟩
      ⟨by omega, by omega⟩ hnext
  have hback : (start + 2).toUInt8.toNat = start + 2 := Assembler.toNat_toUInt8 (by omega)
  rw [Frame.resting, Frame.walk_loadFast h0 hi, Frame.walk_const (hlast 1 _ rfl),
    Frame.walk_compute (hlast 2 _ rfl) rfl hadd, Frame.walk_storeFast (hlast 3 _ rfl) hc,
    Frame.walk_jump (hlast 4 _ rfl), hback]
  rfl

end

namespace Machine

variable {S : Machine → Machine → Prop} {E : Error → Prop} {Q : Machine → Prop} {h : Heap}
  {a : Array Attachment} {vm : Vm} {rest : List Frame} {lines body : List Line} {start u : Nat}
  {g : Ref .mod} {counter : UInt8} {n : Int64} {locals : Array (Option Value)}
  {I : Nat → Heap → Array (Option Value) → Prop}

/-- **The rule of counted loops.** If the body takes what holds before a round to what holds before
the next one, once the counter has gone up, then the loop takes what holds at first to what holds
after as many rounds as its bound says. -/
theorem Leads.countedLoop (hvm : vm.Plain)
    (hloop : PlacedAt lines start (Workload.countedLoop start counter n body))
    (hfit : start + body.length + 11 < 256)
    (hcode : ∀ i h locals, I i h locals → (h.unitAt u).Renders lines)
    (hcounter : ∀ i h locals, I i h locals → locals[counter.toNat]? = some (some (whole i)))
    (hS : ∀ h : Heap, (h.unitAt u).Renders lines → ∀ f₁ f₂ : Frame, f₁.unit = u → f₂.unit = u →
      (∀ arg, lines[f₁.position]? ≠ some (.op .call arg)) →
        S ⟨h, a, vm, f₁ :: rest⟩ ⟨h, a, vm, f₂ :: rest⟩)
    (hbody : ∀ (i : Nat) h locals, (i : Int) < n.toInt → I i h locals →
      Leads S E
        (fun t => ∃ h' locals', t = standing a vm rest u g h' locals' (start + 6 + body.length) ∧
          (h'.unitAt u).Renders lines ∧ locals'[counter.toNat]? = some (some (whole i)) ∧
          I (i + 1) h' (locals'.setIfInBounds counter.toNat (some (whole (i + 1)))))
        (standing a vm rest u g h locals (start + 6)))
    (hc : counter.toNat < locals.size) (hr : (h.unitAt u).Renders lines)
    (hfirst : I 0 h (locals.setIfInBounds counter.toNat (some (whole 0))))
    (hexit : ∀ h' locals', I n.toInt.toNat h' locals' →
      Leads S E Q (standing a vm rest u g h' locals' (start + body.length + 11))) :
    Leads S E Q (standing a vm rest u g h locals start) := by
  have hrange := Operation.fits_toInt n
  -- the rounds that are left, by their number
  have hrounds (k : Nat) : ∀ i h locals, n.toInt.toNat = i + k → I i h locals →
      Leads S E Q (standing a vm rest u g h locals (start + 2)) := by
    induction k with
    | zero =>
      intro i h locals hi hI
      have hr := hcode i h locals hI
      have hin : Fits i := ⟨by omega, by have := hrange.2; omega⟩
      have htest := walk_test (u := u) (g := g) (h := h) (b := vm.builtins) hloop hfit
        (hcounter i h locals hI) hin
      rw [if_neg (by omega)] at htest
      refine .walk hvm rfl hr (hS h hr) htest (hexit h locals ?_)
      rw [hi]
      exact hI
    | succ k ih =>
      intro i h locals hi hI
      have hr := hcode i h locals hI
      have hin : Fits i := ⟨by omega, by have := hrange.2; omega⟩
      have hnext : Fits (i + 1) := ⟨by omega, by have := hrange.2; omega⟩
      have htest := walk_test (u := u) (g := g) (h := h) (b := vm.builtins) hloop hfit
        (hcounter i h locals hI) hin
      rw [if_pos (by omega)] at htest
      refine .walk hvm rfl hr (hS h hr) htest ?_
      refine (hbody i h locals (by omega) hI).trans ?_
      rintro t ⟨h', locals', rfl, hr', hcount, hI'⟩
      refine .walk hvm rfl hr' (hS h' hr') (walk_again hloop hfit hcount hnext) ?_
      exact ih (i + 1) h' _ (by omega) hI'
  refine .walk hvm rfl hr (hS h hr) (walk_init hloop hc) ?_
  exact hrounds n.toInt.toNat 0 h _ (Nat.zero_add _).symm hfirst

end Machine

end AdaptiveVM
