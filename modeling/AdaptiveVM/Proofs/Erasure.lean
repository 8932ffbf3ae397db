import AdaptiveVM.Proofs.Site
import AdaptiveVM.Specialize

/-!
A quickened stream erases to the static stream it was made from.

The operand byte of a quickened instruction means three things: the operand of a static
instruction that was copied, the distance of a site to its words, or the counter of a site
without words. An execution rewrites only what the static stream does not determine, so the
static stream can be read back off the quickened one at any time: plain copies as they stand,
and a site through the family of its member and the operand its first word keeps.
-/

namespace AdaptiveVM

lemma Opcode.eq_of_family {op : Opcode} {family : Family} (hf : op.family? = some family) :
    op = family.opcode := by
  cases op <;> cases hf <;> rfl

namespace Quickened

/-- The stream still stands for the code: it differs from the freshly quickened one only in the
members of sites, and in what sites count and remember. -/
structure ErasesTo (q : Quickened) (code : Array Instr) : Prop where
  size : q.instrs.size = code.size
  words : q.cache.size = (ofCode code).cache.size
  plain : ∀ p i, code[p]? = some i → ((ofCode code).instrAt p).op.family? = none →
    q.instrAt p = .plain i
  member : ∀ p i f, code[p]? = some i → ((ofCode code).instrAt p).op.family? = some f →
    i.op.family? = some f ∧ (q.instrAt p).op.family? = some f
  operand : ∀ p i, code[p]? = some i → (ofCode code).hasEntries p = true →
    (q.instrAt p).arg = ((ofCode code).instrAt p).arg ∧ (q.entryAt p).arg = i.arg

variable {q q' : Quickened} {code : Array Instr} {p : Nat} {i : Instr} {f : Family}

/-! ### Freshly quickened code -/

/-- What stands at a position of fresh code: the instruction itself, or the adaptive member of
its family. -/
lemma instrAt_ofCode_cases (h : code[p]? = some i) :
    (ofCode code).instrAt p = .plain i ∨
      ∃ f arg, i.op.family? = some f ∧ (ofCode code).instrAt p = ⟨.adaptive f, arg⟩ := by
  rw [instrAt_ofCode h]
  rcases hf : i.op.family? with _ | f
  · exact .inl (by rw [place_of_family_none hf])
  · by_cases h0 : f.entries = 0
    · exact .inr ⟨f, 0, rfl, by rw [place_of_entries_zero hf h0]⟩
    · by_cases hc : max (cursorAt code p) (p / 2) - p / 2 ≤ 255
      · exact .inr ⟨f, _, rfl, by rw [place_of_fits hf h0 hc]⟩
      · exact .inl (by rw [place_of_far hf h0 (by omega)])

lemma family_plain (i : Instr) : (QuickInstr.plain i).op.family? = none := rfl

lemma erasesTo_ofCode (code : Array Instr) : (ofCode code).ErasesTo code where
  size := size_instrs_ofCode code
  words := rfl
  plain p i h hn := by
    rcases instrAt_ofCode_cases h with hi | ⟨f, arg, -, hi⟩
    · exact hi
    · rw [hi, family_adaptive] at hn
      simp at hn
  member p i f h hs := by
    refine ⟨?_, hs⟩
    rcases instrAt_ofCode_cases h with hi | ⟨f', arg, hf', hi⟩
    · rw [hi, family_plain] at hs
      simp at hs
    · rw [hi, family_adaptive] at hs
      rw [hf', hs]
  operand p i h hp := ⟨rfl, by rw [entryAt_ofCode h hp]⟩

namespace ErasesTo

/-! ### Reading the stream -/

/-- What stands at a position: the instruction itself, or a member of its family. -/
lemma instrAt_cases (hq : q.ErasesTo code) (h : code[p]? = some i) :
    q.instrAt p = .plain i ∨ ∃ f, i.op.family? = some f ∧ (q.instrAt p).op.family? = some f := by
  rcases hf : ((ofCode code).instrAt p).op.family? with _ | f
  · exact .inl (hq.plain p i h hf)
  · exact .inr ⟨f, hq.member p i f h hf⟩

lemma hasEntries (hq : q.ErasesTo code) (p : Nat) :
    q.hasEntries p = (ofCode code).hasEntries p := by
  rcases h : code[p]? with _ | i
  · have hp : code.size ≤ p := by simpa using h
    rw [hasEntries_eq, hasEntries_eq, instrAt_of_size_le (by rw [hq.size]; exact hp),
      instrAt_of_size_le (by simpa using hp)]
  · rw [hasEntries_eq, hasEntries_eq]
    rcases hf : ((ofCode code).instrAt p).op.family? with _ | f
    · exact owning_congr (by rw [hq.plain p i h hf, family_plain, hf])
    · exact owning_congr (by rw [(hq.member p i f h hf).2, hf])

lemma laid (hq : q.ErasesTo code) : q.Laid := by
  refine (laid_ofCode code).congr hq.words hq.hasEntries fun p hp => ?_
  have hlt : p < code.size := by simpa using lt_size_of_hasEntries hp
  exact (hq.operand p _ (Array.getElem?_eq_getElem hlt) hp).1

lemma arg_entryAt (hq : q.ErasesTo code) (h : code[p]? = some i) (hp : q.hasEntries p = true) :
    (q.entryAt p).arg = i.arg :=
  (hq.operand p i h (by rw [← hq.hasEntries, hp])).2

lemma getElem?_of_family (hq : q.ErasesTo code) (h : (q.instrAt p).op.family? = some f) :
    ∃ i, code[p]? = some i ∧ i.op.family? = some f := by
  have hlt : p < code.size := by
    rw [← hq.size]
    exact lt_size_of_family h
  have hi : code[p]? = some code[p] := Array.getElem?_eq_getElem hlt
  refine ⟨_, hi, ?_⟩
  rcases hq.instrAt_cases hi with hpl | ⟨f', hf', hq'⟩
  · rw [hpl, family_plain] at h
    simp at h
  · rw [hf', ← hq', h]

/-! ### Records of sites -/

/-- The record of a position: there is one if the static opcode has a family. -/
lemma state?_eq (hq : q.ErasesTo code) (h : code[p]? = some i) :
    ((q.state? p).map fun _ => (q.instrAt p).op.opcode) =
      if i.op.family?.isSome then some i.op else none := by
  rcases hq.instrAt_cases h with hp | ⟨f, hf, hfam⟩
  · rw [state?, hp]
    simp only [QuickInstr.plain]
    split
    · rfl
    · rfl
  · -- a member of a family is adaptive or specialized
    have hopcode : (q.instrAt p).op.opcode = i.op := by
      rcases hop : (q.instrAt p).op with op | member | member | member | member
      · rw [hop] at hfam
        cases hfam
      all_goals
        rw [hop] at hfam
        cases hfam
        exact (Opcode.eq_of_family hf).symm
    have hsome : (q.state? p).isSome := by
      unfold state?
      split
      · next hop =>
        rw [hop] at hfam
        cases hfam
      · split <;> rfl
    obtain ⟨state, hstate⟩ := Option.isSome_iff_exists.mp hsome
    rw [hstate, hf, Option.map_some, hopcode]
    rfl

/-- The records name the positions whose static opcode has a family, in ascending order. -/
lemma sites_eq (hq : q.ErasesTo code) :
    (q.sites.map fun s => (s.position, s.opcode)) =
      (List.range code.size).filterMap fun p =>
        (code[p]?).bind fun i => if i.op.family?.isSome then some (p, i.op) else none := by
  rw [sites, List.map_filterMap, hq.size]
  refine List.filterMap_congr fun p hp => ?_
  have hlt : p < code.size := List.mem_range.mp hp
  have hi : code[p]? = some code[p] := Array.getElem?_eq_getElem hlt
  have hstate := hq.state?_eq hi
  rw [hi, Option.bind_some, Option.map_map]
  rcases hs : q.state? p with _ | state
  · rw [hs] at hstate
    split at hstate
    · cases hstate
    · next hf => rw [if_neg hf]; rfl
  · rw [hs] at hstate
    split at hstate
    · next hf =>
      rw [if_pos hf]
      exact congrArg (fun op => some (p, op)) (Option.some.inj hstate)
    · cases hstate

/-! ### Events -/

/-- A change within a site that keeps the family of its member and the operand its first word
remembers. -/
lemma of_touches (hq : q.ErasesTo code) (ht : Touches q q' p)
    (hf : (q'.instrAt p).op.family? = (q.instrAt p).op.family?)
    (hsite : (q.instrAt p).op.family?.isSome)
    (harg : q.hasEntries p = true → (q'.entryAt p).arg = (q.entryAt p).arg) :
    q'.ErasesTo code where
  size := ht.size.trans hq.size
  words := ht.words.trans hq.words
  plain p' i h hn := by
    by_cases hp : p' = p
    · subst hp
      rw [hq.plain p' i h hn, family_plain] at hsite
      simp at hsite
    · rw [ht.instr p' hp, hq.plain p' i h hn]
  member p' i f h hs := by
    obtain ⟨h1, h2⟩ := hq.member p' i f h hs
    refine ⟨h1, ?_⟩
    by_cases hp : p' = p
    · subst hp
      rw [hf, h2]
    · rw [ht.instr p' hp, h2]
  operand p' i h hp' := by
    obtain ⟨h1, h2⟩ := hq.operand p' i h hp'
    rw [← hq.hasEntries] at hp'
    by_cases hp : p' = p
    · subst hp
      exact ⟨(ht.arg hp').trans h1, (harg hp').trans h2⟩
    · rw [ht.instr p' hp, ht.entryAt hq.laid hp hp']
      exact ⟨h1, h2⟩

/-- An event at a site does not change what the stream erases to. -/
lemma apply (hq : q.ErasesTo code) (h : (q.instrAt p).op.family? = some f) {ev : SiteEvent}
    (hev : ev.Fits f) : (q.apply p f ev).ErasesTo code := by
  refine hq.of_touches (apply_touches h hev) ?_ (by rw [h]; rfl)
    (arg_entryAt_apply hq.laid h hev)
  rw [op_apply h, hev.member _ h, h]

end ErasesTo

end Quickened

end AdaptiveVM
