import AdaptiveVM.Proofs.Word
import AdaptiveVM.Quickened.Site
import Mathlib

/-!
The layout of cache words.

The cursor before a position is the end of the last range handed out so far. It never moves
back, a site starts at the cursor or above it, and the cursor moves on to the end of the site's
range; so the ranges come in the order of the stream, do not overlap, and end before the cursor
at the end of the stream, which is the number of words.
-/

namespace AdaptiveVM.Quickened

/-! ### One instruction -/

lemma place_of_family_none {i : Instr} (h : i.op.family? = none) (p c : Nat) :
    place p c i = (.plain i, c) := by
  simp [place, h]

lemma place_of_entries_zero {i : Instr} {f : Family} (h : i.op.family? = some f)
    (h0 : f.entries = 0) (p c : Nat) : place p c i = (⟨.adaptive f, 0⟩, c) := by
  simp [place, h, h0]

lemma place_of_fits {i : Instr} {f : Family} (h : i.op.family? = some f) (h0 : f.entries ≠ 0)
    {p c : Nat} (hc : max c (p / 2) - p / 2 ≤ 255) :
    place p c i = (⟨.adaptive f, (max c (p / 2) - p / 2).toUInt8⟩, max c (p / 2) + f.entries) := by
  simp only [place, h, if_neg h0, if_pos hc]

lemma place_of_far {i : Instr} {f : Family} (h : i.op.family? = some f) (h0 : f.entries ≠ 0)
    {p c : Nat} (hc : 255 < max c (p / 2) - p / 2) : place p c i = (.plain i, c) := by
  simp only [place, h, if_neg h0, if_neg (Nat.not_le.mpr hc)]

lemma entries_eq (f : Family) : f.entries = 2 ∨ f.entries = 0 := by
  cases f <;> simp [Family.entries]

@[simp] lemma family_adaptive (f : Family) : (QuickOp.adaptive f).family? = some f := by
  cases f <;> rfl

lemma cursor_le_place (p c : Nat) (i : Instr) : c ≤ (place p c i).2 := by
  rcases hf : i.op.family? with _ | f
  · rw [place_of_family_none hf]
  · by_cases h0 : f.entries = 0
    · rw [place_of_entries_zero hf h0]
    · by_cases hc : max c (p / 2) - p / 2 ≤ 255
      · rw [place_of_fits hf h0 hc]
        show c ≤ max c (p / 2) + f.entries
        omega
      · rw [place_of_far hf h0 (by omega)]

/-- The operation owns cache words. -/
def owning (op : QuickOp) : Bool :=
  match op.family? with
  | some f => 0 < f.entries
  | none => false

lemma hasEntries_eq (q : Quickened) (p : Nat) : q.hasEntries p = owning (q.instrAt p).op := rfl

lemma owning_congr {op op' : QuickOp} (h : op.family? = op'.family?) : owning op = owning op' := by
  simp only [owning, h]

/-- A site that owns words starts at the cursor or above it, and moves it to its end. -/
lemma place_owning {p c : Nat} {i : Instr} (h : owning (place p c i).1.op = true) :
    base p (place p c i).1 = max c (p / 2) ∧ (place p c i).2 = base p (place p c i).1 + 2 := by
  rcases hf : i.op.family? with _ | f
  · rw [place_of_family_none hf] at h
    simp [owning, QuickInstr.plain, QuickOp.family?] at h
  · by_cases h0 : f.entries = 0
    · rw [place_of_entries_zero hf h0] at h
      simp [owning, h0] at h
    · have h2 : f.entries = 2 := (entries_eq f).resolve_right h0
      by_cases hc : max c (p / 2) - p / 2 ≤ 255
      · have hb : base p (place p c i).1 = max c (p / 2) := by
          rw [place_of_fits hf h0 hc]
          simp only [base, Nat.toUInt8, UInt8.toNat_ofNat']
          omega
        refine ⟨hb, ?_⟩
        rw [hb, place_of_fits hf h0 hc, h2]
      · rw [place_of_far hf h0 (by omega)] at h
        simp [owning, QuickInstr.plain, QuickOp.family?] at h

/-! ### The whole stream -/

lemma layoutFrom_append (p c : Nat) (xs ys : List Instr) :
    layoutFrom p c (xs ++ ys) =
      ((layoutFrom p c xs).1 ++ (layoutFrom (p + xs.length) (layoutFrom p c xs).2 ys).1,
        (layoutFrom (p + xs.length) (layoutFrom p c xs).2 ys).2) := by
  induction xs generalizing p c with
  | nil => simp [layoutFrom]
  | cons i xs ih =>
    simp only [List.cons_append, layoutFrom, ih, List.length_cons]
    simp only [Nat.add_assoc, Nat.add_comm 1]

@[simp] lemma length_layoutFrom (p c : Nat) (xs : List Instr) :
    (layoutFrom p c xs).1.length = xs.length := by
  induction xs generalizing p c with
  | nil => rfl
  | cons i xs ih => simp [layoutFrom, ih]

/-- The cursor before a position: the end of the last range handed out up to there. -/
def cursorAt (code : Array Instr) (p : Nat) : Nat := (layoutFrom 0 0 (code.toList.take p)).2

lemma take_succ_of_getElem? {code : Array Instr} {p : Nat} {i : Instr} (h : code[p]? = some i) :
    code.toList.take (p + 1) = code.toList.take p ++ [i] := by
  rw [List.take_add_one, Array.getElem?_toList, h, Option.toList_some]

lemma lt_size_of_getElem? {code : Array Instr} {p : Nat} {i : Instr} (h : code[p]? = some i) :
    p < code.size := (Array.getElem?_eq_some_iff.mp h).1

lemma cursorAt_succ {code : Array Instr} {p : Nat} {i : Instr} (h : code[p]? = some i) :
    cursorAt code (p + 1) = (place p (cursorAt code p) i).2 := by
  have hp := lt_size_of_getElem? h
  have hlen : (code.toList.take p).length = p := by simp; omega
  rw [cursorAt, take_succ_of_getElem? h, layoutFrom_append, hlen, Nat.zero_add]
  rfl

/-- The instruction at a position is placed at the cursor before it. -/
lemma layout_getElem? {code : Array Instr} {p : Nat} {i : Instr} (h : code[p]? = some i) :
    (layout code).1[p]? = some (place p (cursorAt code p) i).1 := by
  have hp := lt_size_of_getElem? h
  have hlen : (code.toList.take p).length = p := by simp; omega
  have hsplit : code.toList = code.toList.take p ++ (i :: code.toList.drop (p + 1)) := by
    rw [← List.singleton_append, ← List.append_assoc, ← take_succ_of_getElem? h,
      List.take_append_drop]
  rw [layout, hsplit, layoutFrom_append, hlen, Nat.zero_add,
    List.getElem?_append_right (by simp [hlen]), length_layoutFrom, hlen, Nat.sub_self]
  rfl

lemma words_eq_cursorAt (code : Array Instr) : (layout code).2 = cursorAt code code.size := by
  rw [layout, cursorAt, List.take_of_length_le (by simp)]

lemma cursorAt_le_succ (code : Array Instr) (p : Nat) :
    cursorAt code p ≤ cursorAt code (p + 1) := by
  rcases h : code[p]? with _ | i
  · have hp : code.size ≤ p := by simpa using h
    rw [cursorAt, cursorAt, List.take_of_length_le (by simpa using hp),
      List.take_of_length_le (by simp; omega)]
  · rw [cursorAt_succ h]
    exact cursor_le_place _ _ _

lemma cursorAt_mono (code : Array Instr) {p p' : Nat} (h : p ≤ p') :
    cursorAt code p ≤ cursorAt code p' := by
  induction h with
  | refl => exact Nat.le_refl _
  | step _ ih => exact le_trans ih (cursorAt_le_succ code _)

/-! ### Reading and writing words -/

@[simp] lemma size_cache_setWord (q : Quickened) (p s : Nat) (w : UInt64) :
    (q.setWord p s w).cache.size = q.cache.size := by simp [setWord]

lemma word_setWord_self {q : Quickened} {p s : Nat} (w : UInt64)
    (h : base p (q.instrAt p) + s < q.cache.size) : (q.setWord p s w).word p s = w := by
  simp [word, setWord, instrAt, Array.getD_eq_getD_getElem?] at h ⊢
  simp [h]

lemma word_setWord_ne {q : Quickened} {p s p' s' : Nat} (w : UInt64)
    (h : base p (q.instrAt p) + s ≠ base p' (q.instrAt p') + s') :
    (q.setWord p s w).word p' s' = q.word p' s' := by
  unfold word setWord
  simp only [instrAt] at h ⊢
  rw [Array.getD_eq_getD_getElem?, Array.getElem?_setIfInBounds_ne h, ← Array.getD_eq_getD_getElem?]

/-- The sites that own words have them inside the cache, and no two sites share one. -/
structure Laid (q : Quickened) : Prop where
  inside : ∀ p, q.hasEntries p = true → base p (q.instrAt p) + 2 ≤ q.cache.size
  apart : ∀ p p', p < p' → q.hasEntries p = true → q.hasEntries p' = true →
    base p (q.instrAt p) + 2 ≤ base p' (q.instrAt p')

variable {q : Quickened} {p p' : Nat}

lemma Laid.ne (hq : q.Laid) (h : q.hasEntries p = true) (h' : q.hasEntries p' = true)
    (hne : p ≠ p') {s s' : Nat} (hs : s < 2) (hs' : s' < 2) :
    base p (q.instrAt p) + s ≠ base p' (q.instrAt p') + s' := by
  rcases Nat.lt_or_gt_of_ne hne with hlt | hlt
  · have := hq.apart p p' hlt h h'
    omega
  · have := hq.apart p' p hlt h' h
    omega

/-- Only the operations and the operands of owning sites, and the number of words, matter. -/
lemma Laid.congr {q' : Quickened} (hq : q.Laid) (hsize : q'.cache.size = q.cache.size)
    (hown : ∀ p, q'.hasEntries p = q.hasEntries p)
    (harg : ∀ p, q.hasEntries p = true → (q'.instrAt p).arg = (q.instrAt p).arg) : q'.Laid := by
  have hbase : ∀ p, q.hasEntries p = true → base p (q'.instrAt p) = base p (q.instrAt p) := by
    intro p hp
    rw [base, base, harg p hp]
  refine ⟨fun p hp => ?_, fun p p' hlt hp hp' => ?_⟩
  · rw [hown] at hp
    rw [hbase p hp, hsize]
    exact hq.inside p hp
  · rw [hown] at hp hp'
    rw [hbase p hp, hbase p' hp']
    exact hq.apart p p' hlt hp hp'

lemma Laid.word_setWord_self (hq : q.Laid) (h : q.hasEntries p = true) {s : Nat} (hs : s < 2)
    (w : UInt64) : (q.setWord p s w).word p s = w :=
  Quickened.word_setWord_self w (by have := hq.inside p h; omega)

lemma Laid.word_setWord_ne (hq : q.Laid) (h : q.hasEntries p = true)
    (h' : q.hasEntries p' = true) (hne : p ≠ p') {s s' : Nat} (hs : s < 2) (hs' : s' < 2)
    (w : UInt64) : (q.setWord p s w).word p' s' = q.word p' s' :=
  Quickened.word_setWord_ne w (hq.ne h h' hne hs hs')

lemma instrAt_of_size_le (h : q.instrs.size ≤ p) : q.instrAt p = default := by
  simp [instrAt, Array.getD_eq_getD_getElem?, h]

lemma lt_size_of_hasEntries (h : q.hasEntries p = true) : p < q.instrs.size := by
  by_contra hc
  rw [hasEntries_eq, instrAt_of_size_le (by omega)] at h
  exact absurd h (by decide)

/-! ### Freshly quickened code -/

@[simp] lemma instrs_seedFrom (q : Quickened) (p : Nat) (code : List Instr) :
    (q.seedFrom p code).instrs = q.instrs := by
  induction code generalizing q p with
  | nil => rfl
  | cons i rest ih =>
    unfold seedFrom
    split
    · rw [ih]; rfl
    · rw [ih]

@[simp] lemma size_cache_seedFrom (q : Quickened) (p : Nat) (code : List Instr) :
    (q.seedFrom p code).cache.size = q.cache.size := by
  induction code generalizing q p with
  | nil => rfl
  | cons i rest ih =>
    unfold seedFrom
    split
    · rw [ih, setEntry, size_cache_setWord]
    · rw [ih]

lemma isSome_cacheRange? (q : Quickened) (p : Nat) :
    (q.cacheRange? p).isSome = q.hasEntries p := by
  by_cases hp : p < q.instrs.size
  · have hi : q.instrs[p]? = some (q.instrAt p) := by
      simp [instrAt, Array.getD_eq_getD_getElem?, hp]
    simp only [cacheRange?, hi, hasEntries]
    rcases (q.instrAt p).op.family? with _ | f
    · rfl
    · rcases entries_eq f with h | h <;> simp [h]
  · simp [cacheRange?, hasEntries, instrAt_of_size_le (Nat.not_lt.mp hp), Nat.not_lt.mp hp,
      QuickOp.family?, default, QuickInstr.plain]

lemma Laid.setEntry (hq : q.Laid) (p : Nat) (e : Entry) : (q.setEntry p e).Laid :=
  hq.congr (size_cache_setWord ..) (fun _ => rfl) fun _ _ => rfl

lemma Laid.entryAt_setEntry_self (hq : q.Laid) (h : q.hasEntries p = true) (e : Entry) :
    (q.setEntry p e).entryAt p = e := by
  rw [entryAt, Quickened.setEntry, hq.word_setWord_self h (by omega), Entry.unpack_pack]

lemma Laid.entryAt_setEntry_ne (hq : q.Laid) (h : q.hasEntries p = true)
    (h' : q.hasEntries p' = true) (hne : p ≠ p') (e : Entry) :
    (q.setEntry p e).entryAt p' = q.entryAt p' := by
  rw [entryAt, Quickened.setEntry, hq.word_setWord_ne h h' hne (by omega) (by omega), entryAt]

lemma entryAt_seedFrom_of_lt (hq : q.Laid) (code : List Instr) {start : Nat} (hlt : p < start)
    (h : q.hasEntries p = true) : (q.seedFrom start code).entryAt p = q.entryAt p := by
  induction code generalizing q start with
  | nil => rfl
  | cons i rest ih =>
    unfold seedFrom
    split
    · next hs =>
      rw [isSome_cacheRange?] at hs
      rw [ih (hq.setEntry _ _) (by omega) h, hq.entryAt_setEntry_ne hs h (by omega)]
    · exact ih hq (by omega) h

/-- Seeding gives every site with words the operand of its static instruction. -/
lemma entryAt_seedFrom (hq : q.Laid) {code : List Instr} (start : Nat) {k : Nat} {i : Instr}
    (hk : code[k]? = some i) (h : q.hasEntries (start + k) = true) :
    (q.seedFrom start code).entryAt (start + k) = { arg := i.arg } := by
  induction code generalizing q start k with
  | nil => simp at hk
  | cons j rest ih =>
    unfold seedFrom
    cases k with
    | zero =>
      obtain rfl : j = i := by simpa using hk
      simp only [Nat.add_zero] at h ⊢
      rw [if_pos (by rw [isSome_cacheRange?, h]),
        entryAt_seedFrom_of_lt (hq.setEntry _ _) rest (by omega) h, hq.entryAt_setEntry_self h]
    | succ k =>
      have hk' : rest[k]? = some i := by simpa using hk
      rw [show start + (k + 1) = start + 1 + k by omega] at h ⊢
      split
      · exact ih (hq.setEntry _ _) _ hk' h
      · exact ih hq _ hk' h

/-- The stream before its words are seeded. -/
def unseeded (code : Array Instr) : Quickened :=
  { instrs := (layout code).1.toArray, cache := Array.replicate (layout code).2 0 }

lemma ofCode_eq (code : Array Instr) : ofCode code = (unseeded code).seedFrom 0 code.toList := rfl

lemma instrAt_unseeded {code : Array Instr} {i : Instr} (h : code[p]? = some i) :
    (unseeded code).instrAt p = (place p (cursorAt code p) i).1 := by
  rw [instrAt, unseeded, Array.getD_eq_getD_getElem?, List.getElem?_toArray, layout_getElem? h,
    Option.getD_some]

lemma size_instrs_unseeded (code : Array Instr) : (unseeded code).instrs.size = code.size := by
  simp [unseeded, layout]

lemma laid_unseeded (code : Array Instr) : (unseeded code).Laid := by
  -- an owning site is one placed at the cursor
  have key : ∀ p, (unseeded code).hasEntries p = true → p < code.size ∧
      cursorAt code p ≤ base p ((unseeded code).instrAt p) ∧
      cursorAt code (p + 1) = base p ((unseeded code).instrAt p) + 2 := by
    intro p hp
    have hlt : p < code.size := by simpa [size_instrs_unseeded] using lt_size_of_hasEntries hp
    have hi : code[p]? = some code[p] := Array.getElem?_eq_getElem hlt
    rw [hasEntries_eq, instrAt_unseeded hi] at hp
    obtain ⟨hb, hc⟩ := place_owning hp
    rw [instrAt_unseeded hi, cursorAt_succ hi]
    exact ⟨hlt, by rw [hb]; exact le_max_left _ _, hc⟩
  refine ⟨fun p hp => ?_, fun p p' hlt hp hp' => ?_⟩
  · obtain ⟨hsize, -, hend⟩ := key p hp
    rw [← hend, unseeded, Array.size_replicate, words_eq_cursorAt]
    exact cursorAt_mono code hsize
  · obtain ⟨-, -, hend⟩ := key p hp
    obtain ⟨-, hstart, -⟩ := key p' hp'
    rw [← hend]
    exact le_trans (cursorAt_mono code hlt) hstart

lemma instrAt_ofCode_eq (code : Array Instr) (p : Nat) :
    (ofCode code).instrAt p = (unseeded code).instrAt p := by
  rw [instrAt, ofCode_eq, instrs_seedFrom, instrAt]

lemma instrAt_ofCode {code : Array Instr} {i : Instr} (h : code[p]? = some i) :
    (ofCode code).instrAt p = (place p (cursorAt code p) i).1 := by
  rw [instrAt_ofCode_eq, instrAt_unseeded h]

@[simp] lemma size_instrs_ofCode (code : Array Instr) : (ofCode code).instrs.size = code.size := by
  rw [ofCode_eq, instrs_seedFrom, size_instrs_unseeded]

lemma hasEntries_ofCode (code : Array Instr) (p : Nat) :
    (ofCode code).hasEntries p = (unseeded code).hasEntries p := by
  rw [hasEntries_eq, hasEntries_eq, instrAt_ofCode_eq]

/-- **The layout is sound**: every site of a fresh stream has its words to itself. -/
theorem laid_ofCode (code : Array Instr) : (ofCode code).Laid :=
  (laid_unseeded code).congr (by rw [ofCode_eq, size_cache_seedFrom]) (hasEntries_ofCode code)
    fun p _ => by rw [instrAt_ofCode_eq]

lemma entryAt_ofCode {code : Array Instr} {i : Instr} (h : code[p]? = some i)
    (hp : (ofCode code).hasEntries p = true) :
    (ofCode code).entryAt p = { arg := i.arg } := by
  rw [hasEntries_ofCode] at hp
  have hk : code.toList[p]? = some i := by rw [Array.getElem?_toList, h]
  have := entryAt_seedFrom (laid_unseeded code) 0 hk (by rwa [Nat.zero_add])
  rwa [Nat.zero_add] at this

end AdaptiveVM.Quickened
