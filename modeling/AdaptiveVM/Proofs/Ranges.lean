import AdaptiveVM.Proofs.Layout

/-!
The ranges of words that the sites of a fresh stream own.

A range is computed from the operand of its site alone. That it is nobody else's comes from the
way operands are chosen: the words of a site start where the range before it ends, or at half the
position of the site if that is further on. The distance is a byte, so where ranges have run too
far ahead of the stream a site gets none and stays static; further on the positions catch up, and
sites own words again.
-/

namespace AdaptiveVM.Quickened

variable {q : Quickened} {code : Array Instr} {p p' c : Nat} {i : Instr} {f : Family}

/-! ### Ranges and operands -/

/-- A site that owns words owns two of them. -/
lemma cacheRange?_eq (q : Quickened) (p : Nat) :
    q.cacheRange? p =
      if q.hasEntries p then some (base p (q.instrAt p), base p (q.instrAt p) + 2) else none := by
  by_cases hp : p < q.instrs.size
  · have hi : q.instrs[p]? = some (q.instrAt p) := by
      simp [instrAt, Array.getD_eq_getD_getElem?, hp]
    rcases hf : (q.instrAt p).op.family? with _ | f
    · simp [cacheRange?, hasEntries, hi, hf]
    · rcases entries_eq f with h2 | h0
      · simp [cacheRange?, hasEntries, hi, hf, h2]
      · simp [cacheRange?, hasEntries, hi, hf, h0]
  · have hnone : q.instrs[p]? = none := by simpa using hp
    have hown : q.hasEntries p = false := by
      by_contra hc
      exact hp (lt_size_of_hasEntries (by simpa using hc))
    simp [cacheRange?, hnone, hown]

lemma cacheRange?_eq_some {r : Nat × Nat} (h : q.cacheRange? p = some r) :
    q.hasEntries p = true ∧ r = (base p (q.instrAt p), base p (q.instrAt p) + 2) := by
  rw [cacheRange?_eq] at h
  split at h
  · next hown => exact ⟨hown, (Option.some.inj h).symm⟩
  · cases h

lemma getElem?_instrs (h : p < q.instrs.size) : q.instrs[p]? = some (q.instrAt p) := by
  simp [instrAt, Array.getD_eq_getD_getElem?, h]

/-- The end of the last range that a site below a position owns, or zero if no site does. -/
def reservedBelow (q : Quickened) : Nat → Nat
  | 0 => 0
  | p + 1 =>
    match q.cacheRange? p with
    | some r => r.2
    | none => q.reservedBelow p

/-! ### The cursor is the end of the last range -/

/-- Where no word is handed out, the cursor stays. -/
lemma place_of_not_owning (h : owning (place p c i).1.op = false) : (place p c i).2 = c := by
  rcases hf : i.op.family? with _ | f
  · rw [place_of_family_none hf]
  · by_cases h0 : f.entries = 0
    · rw [place_of_entries_zero hf h0]
    · by_cases hc : max c (p / 2) - p / 2 ≤ 255
      · rw [place_of_fits hf h0 hc] at h
        have hpos : 0 < f.entries := Nat.pos_of_ne_zero h0
        simp [owning, hpos] at h
      · rw [place_of_far hf h0 (by omega)]

lemma hasEntries_ofCode_of_some (h : code[p]? = some i) :
    (ofCode code).hasEntries p = owning (place p (cursorAt code p) i).1.op := by
  rw [hasEntries_eq, instrAt_ofCode h]

/-- The range of a site of fresh code starts at the cursor, or at half the position. -/
lemma cacheRange?_ofCode (h : code[p]? = some i) :
    (ofCode code).cacheRange? p =
      if owning (place p (cursorAt code p) i).1.op then
        some (max (cursorAt code p) (p / 2), cursorAt code (p + 1))
      else none := by
  rw [cacheRange?_eq, hasEntries_ofCode_of_some h]
  split
  · next hown =>
    obtain ⟨hbase, hend⟩ := place_owning hown
    rw [instrAt_ofCode h, cursorAt_succ h, hend, hbase]
  · rfl

lemma cacheRange?_of_size_le (h : q.instrs.size ≤ p) : q.cacheRange? p = none := by
  have hnone : q.instrs[p]? = none := by simpa using h
  simp [cacheRange?, hnone]

/-- **The cursor** before a position is the end of the last range below it. -/
theorem reservedBelow_ofCode (code : Array Instr) (p : Nat) :
    (ofCode code).reservedBelow p = cursorAt code p := by
  induction p with
  | zero => rfl
  | succ p ih =>
    rcases h : code[p]? with _ | i
    · have hp : code.size ≤ p := by simpa using h
      have hstay : cursorAt code (p + 1) = cursorAt code p := by
        simp [cursorAt, List.take_of_length_le, hp, Nat.le_succ_of_le hp]
      rw [reservedBelow, cacheRange?_of_size_le (by simpa using hp), hstay]
      exact ih
    · rw [reservedBelow, cacheRange?_ofCode h]
      by_cases hown : owning (place p (cursorAt code p) i).1.op = true
      · rw [if_pos hown]
      · rw [if_neg hown, cursorAt_succ h, place_of_not_owning (by simpa using hown)]
        exact ih

/-! ### What the words hold -/

/-- Seeding writes the first words of sites and no others. -/
lemma getD_cache_seedFrom (q : Quickened) (start : Nat) (instrs : List Instr) {k : Nat}
    (hk : ∀ p, q.hasEntries p = true → k ≠ base p (q.instrAt p)) :
    (q.seedFrom start instrs).cache.getD k 0 = q.cache.getD k 0 := by
  induction instrs generalizing q start with
  | nil => rfl
  | cons i rest ih =>
    unfold seedFrom
    split
    · next hs =>
      rw [isSome_cacheRange?] at hs
      have hne : base start (q.instrAt start) + 0 ≠ k := fun hc => hk start hs (by omega)
      rw [ih (q.setEntry start { arg := i.arg }) (start + 1) hk, setEntry, setWord]
      simp only [Array.getD_eq_getD_getElem?]
      rw [Array.getElem?_setIfInBounds_ne hne]
    · exact ih q (start + 1) hk

lemma getD_cache_ofCode {k : Nat}
    (hk : ∀ p, (ofCode code).hasEntries p = true → k ≠ base p ((ofCode code).instrAt p)) :
    (ofCode code).cache.getD k 0 = 0 := by
  have hk' : ∀ p, (unseeded code).hasEntries p = true → k ≠ base p ((unseeded code).instrAt p) := by
    intro p hp
    rw [← instrAt_ofCode_eq]
    exact hk p (by rw [hasEntries_ofCode, hp])
  rw [ofCode_eq, getD_cache_seedFrom (unseeded code) 0 code.toList hk', unseeded,
    Array.getD_eq_getD_getElem?, Array.getElem?_replicate]
  split <;> rfl

lemma getElem?_cache {k : Nat} (hk : k < q.cache.size) : q.cache[k]? = some (q.cache.getD k 0) := by
  simp [Array.getD_eq_getD_getElem?, hk]

/-- The first word of a site holds the operand of the static instruction and nothing else. -/
lemma word_ofCode (h : code[p]? = some i) (hown : (ofCode code).hasEntries p = true) :
    (ofCode code).word p 0 = Entry.pack ⟨i.arg, 0, 0, 0⟩ := by
  have hentry : Entry.unpack ((ofCode code).word p 0) = ⟨i.arg, 0, 0, 0⟩ := entryAt_ofCode h hown
  rw [← hentry, Entry.pack_unpack]

/-! ### The layout as a whole -/

/-- The stream is a layout of the code: which sites own words, which words, and what they hold at
first. -/
structure LaysOut (q : Quickened) (code : Array Instr) : Prop where
  size : q.instrs.size = code.size
  /-- An instruction that heads no family is copied. -/
  copied : ∀ p i, code[p]? = some i → i.op.family? = none →
    q.instrs[p]? = some (.plain i) ∧ q.cacheRange? p = none
  /-- An addition owns no words, and counts from zero in its operand. -/
  counting : ∀ p i, code[p]? = some i → i.op = .binaryAdd →
    q.instrs[p]? = some ⟨.binaryAdd .adaptive, 0⟩ ∧ q.cacheRange? p = none
  /-- Any other site whose words are near enough owns two. -/
  near : ∀ p i f, code[p]? = some i → i.op.family? = some f → f ≠ .binaryAdd →
    q.reservedBelow p - p / 2 ≤ 255 →
      ∃ o : UInt8, q.instrs[p]? = some ⟨.adaptive f, o⟩ ∧
        p / 2 + o.toNat = max (q.reservedBelow p) (p / 2) ∧
        q.cacheRange? p = some (p / 2 + o.toNat, p / 2 + o.toNat + 2)
  /-- One whose words would be too far away stays static. -/
  far : ∀ p i f, code[p]? = some i → i.op.family? = some f → f ≠ .binaryAdd →
    255 < q.reservedBelow p - p / 2 → q.instrs[p]? = some (.plain i) ∧ q.cacheRange? p = none
  /-- Ranges come in the order of the stream, and one ends before the next one starts. -/
  ascending : ∀ p p' r r', p < p' → q.cacheRange? p = some r → q.cacheRange? p' = some r' →
    r.1 < r.2 ∧ r.2 ≤ r'.1
  inside : ∀ p r, q.cacheRange? p = some r → r.2 ≤ q.cache.size
  words : q.cache.size = q.reservedBelow code.size
  seeded : ∀ p i r, code[p]? = some i → q.cacheRange? p = some r →
    q.cache[r.1]? = some (Entry.pack ⟨i.arg, 0, 0, 0⟩)
  blank : ∀ k < q.cache.size, (∀ p r, q.cacheRange? p = some r → k ≠ r.1) → q.cache[k]? = some 0
  /-- What is written to the words of one site is not read as a word of another. -/
  own : ∀ p p' s s' w, p ≠ p' → (q.cacheRange? p).isSome → (q.cacheRange? p').isSome → s < 2 →
    s' < 2 → (q.setWord p s w).word p' s' = q.word p' s'

lemma place_near (hf : i.op.family? = some f) (h0 : f.entries ≠ 0) (hc : c - p / 2 ≤ 255) :
    ∃ o : UInt8, (place p c i).1 = ⟨.adaptive f, o⟩ ∧ p / 2 + o.toNat = max c (p / 2) ∧
      owning (place p c i).1.op = true := by
  have hpos : 0 < f.entries := Nat.pos_of_ne_zero h0
  have hfit : max c (p / 2) - p / 2 ≤ 255 := by omega
  have hown : owning (place p c i).1.op = true := by
    rw [place_of_fits hf h0 hfit]
    simp [owning, hpos]
  obtain ⟨hbase, -⟩ := place_owning hown
  rw [place_of_fits hf h0 hfit] at hbase
  refine ⟨(max c (p / 2) - p / 2).toUInt8, ?_, hbase, hown⟩
  rw [place_of_fits hf h0 hfit]

/-- Sites of all families but addition own words. -/
lemma entries_ne_zero (h : f ≠ .binaryAdd) : f.entries ≠ 0 := by
  cases f <;> simp_all [Family.entries]

theorem laysOut_ofCode (code : Array Instr) : (ofCode code).LaysOut code := by
  have hlaid := laid_ofCode code
  have hat (p : Nat) (i : Instr) (h : code[p]? = some i) :
      (ofCode code).instrs[p]? = some (place p (cursorAt code p) i).1 := by
    rw [getElem?_instrs (by simpa using lt_size_of_getElem? h), instrAt_ofCode h]
  refine ⟨size_instrs_ofCode code, ?_, ?_, ?_, ?_, ?_, ?_, ?_, ?_, ?_, ?_⟩
  · intro p i h hf
    rw [hat p i h, cacheRange?_ofCode h, place_of_family_none hf]
    exact ⟨rfl, rfl⟩
  · intro p i h hop
    have hf : i.op.family? = some .binaryAdd := by rw [hop]; rfl
    rw [hat p i h, cacheRange?_ofCode h, place_of_entries_zero hf rfl]
    exact ⟨rfl, rfl⟩
  · intro p i f h hf hne hnear
    rw [reservedBelow_ofCode] at hnear ⊢
    obtain ⟨o, hplace, ho, hown⟩ := place_near hf (entries_ne_zero hne) hnear
    obtain ⟨hbase, hend⟩ := place_owning hown
    refine ⟨o, by rw [hat p i h, hplace], ho, ?_⟩
    rw [cacheRange?_ofCode h, if_pos hown, cursorAt_succ h, hend, hbase, ho]
  · intro p i f h hf hne hfar
    rw [reservedBelow_ofCode] at hfar
    have hstatic : place p (cursorAt code p) i = (.plain i, cursorAt code p) :=
      place_of_far hf (entries_ne_zero hne) (by omega)
    rw [hat p i h, cacheRange?_ofCode h, hstatic]
    exact ⟨rfl, rfl⟩
  · intro p p' r r' hlt hr hr'
    obtain ⟨hown, rfl⟩ := cacheRange?_eq_some hr
    obtain ⟨hown', rfl⟩ := cacheRange?_eq_some hr'
    exact ⟨by simp, hlaid.apart p p' hlt hown hown'⟩
  · intro p r hr
    obtain ⟨hown, rfl⟩ := cacheRange?_eq_some hr
    exact hlaid.inside p hown
  · have hsize : (ofCode code).cache.size = (layout code).2 := by
      rw [ofCode_eq, size_cache_seedFrom, unseeded, Array.size_replicate]
    rw [reservedBelow_ofCode, hsize, words_eq_cursorAt]
  · intro p i r h hr
    obtain ⟨hown, rfl⟩ := cacheRange?_eq_some hr
    have hin := hlaid.inside p hown
    rw [getElem?_cache (by simp; omega), ← word_ofCode h hown]
    rfl
  · intro k hk hother
    rw [getElem?_cache hk, getD_cache_ofCode]
    intro p hown
    exact hother p _ (by rw [cacheRange?_eq, if_pos hown])
  · intro p p' s s' w hne hr hr' hs hs'
    rw [isSome_cacheRange?] at hr hr'
    exact hlaid.word_setWord_ne hr hr' hne hs hs' w

/-- **Quickening lays code out.** Whatever the code, there is one stream that every sufficient limit
gives, and it is a layout of the code. -/
theorem quicken_lays_out (code : Array Instr) :
    ∃ q : Quickened, q.LaysOut code ∧
      ∀ limit, q.memorySize ≤ limit → quicken code limit = .ok q := by
  have hlayout := laysOut_ofCode code
  refine ⟨ofCode code, hlayout, fun limit hlimit => ?_⟩
  have hneed : (ofCode code).memorySize = footprint code.size (layout code).2 := by
    rw [memorySize, hlayout.size, hlayout.words, reservedBelow_ofCode, words_eq_cursorAt]
  rw [hneed] at hlimit
  rw [quicken, if_neg (Nat.not_lt.mpr hlimit)]

/-- A run of global loads, as dense as can be. The words of three of them would be too far away, and
those of the next one are just near enough. -/
theorem quicken_lays_out_dense :
    let code := Array.replicate 175 (⟨.loadGlobal, 7⟩ : Instr)
    ∃ q : Quickened, q.LaysOut code ∧ quicken code 3277 = .ok q ∧
      q.instrs[171]? = some (.plain ⟨.loadGlobal, 7⟩) ∧ q.cacheRange? 173 = none ∧
      q.instrs[174]? = some ⟨.loadGlobal .adaptive, 255⟩ ∧ q.cacheRange? 174 = some (342, 344) := by
  intro code
  obtain ⟨q, hlayout, hquicken⟩ := quicken_lays_out code
  obtain rfl : ofCode code = q := by
    have hown := hquicken q.memorySize le_rfl
    rw [quicken] at hown
    split at hown
    · cases hown
    · exact Except.ok.inj hown
  have hat (p : Nat) (hp : p < 175) : code[p]? = some ⟨.loadGlobal, 7⟩ := by simp [code, hp]
  have hends : [171, 173, 174, 175].map (cursorAt code) = [342, 342, 342, 344] := by decide +kernel
  simp only [← reservedBelow_ofCode, List.map_cons, List.cons.injEq] at hends
  obtain ⟨h171, h173, h174, h175, -⟩ := hends
  obtain ⟨o, hinstr, ho, hrange⟩ :=
    hlayout.near 174 _ .loadGlobal (hat 174 (by decide)) rfl (by decide) (by rw [h174])
  rw [h174] at ho
  obtain rfl : o = 255 := UInt8.toNat_inj.mp (show o.toNat = 255 by omega)
  refine ⟨_, hlayout, hquicken 3277 ?_, ?_, ?_, hinstr, hrange⟩
  · rw [memorySize, hlayout.words, hlayout.size]
    simp only [code, Array.size_replicate] at h175 ⊢
    rw [h175]
    decide
  · exact (hlayout.far 171 _ _ (hat 171 (by decide)) rfl (by decide) (by rw [h171]; decide)).1
  · exact (hlayout.far 173 _ _ (hat 173 (by decide)) rfl (by decide) (by rw [h173]; decide)).2

end AdaptiveVM.Quickened
