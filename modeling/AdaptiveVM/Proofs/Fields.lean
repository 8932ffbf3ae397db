import AdaptiveVM.Proofs.Layout

/-!
The fields of cache words, bit by bit.

A bit of a word belongs to one field, and a word has no bits beside its fields. So words are in
bijection with what they stand for; and to take a word apart, replace a field and put the word
together again is to write the bits of that field in place.
-/

namespace AdaptiveVM

/-- The bit of a word with the given weight. -/
def bitAt (w : UInt64) (i : Nat) : Bool := w.toBitVec.getLsbD i

/-- The bits of the two fields that a guard is kept in, by their weights in the word. -/
def Guard.bitAt (g : Guard) (i : Nat) : Bool :=
  if i < 32 then g.index.toBitVec.getLsbD (i - 16) else g.version.toBitVec.getLsbD (i - 32)

/-! ### Words and what they stand for -/

namespace Entry

/-- Every bit of a word belongs to one field. -/
lemma bitAt_pack (e : Entry) {i : Nat} (hi : i < 64) :
    bitAt e.pack i =
      if i < 8 then e.arg.toBitVec.getLsbD i
      else if i < 16 then e.counter.toBitVec.getLsbD (i - 8)
      else if i < 32 then e.index.toBitVec.getLsbD (i - 16)
      else e.version.toBitVec.getLsbD (i - 32) := by
  simp only [bitAt, pack]
  simp [hi]
  grind

lemma bitAt_unpack (w : UInt64) {i : Nat} (hi : i < 64) :
    bitAt w i =
      if i < 8 then (unpack w).arg.toBitVec.getLsbD i
      else if i < 16 then (unpack w).counter.toBitVec.getLsbD (i - 8)
      else if i < 32 then (unpack w).index.toBitVec.getLsbD (i - 16)
      else (unpack w).version.toBitVec.getLsbD (i - 32) := by
  rw [← bitAt_pack _ hi, pack_unpack]

/-- A new counter changes the bits of the counter. -/
lemma bitAt_with_counter (w : UInt64) (counter : UInt8) {i : Nat} (hi : i < 64) :
    bitAt (pack { unpack w with counter }) i =
      if 8 ≤ i ∧ i < 16 then counter.toBitVec.getLsbD (i - 8) else bitAt w i := by
  rw [bitAt_pack _ hi, bitAt_unpack w hi]
  dsimp only
  split_ifs <;> first | rfl | omega

/-- A new guard changes the bits above the counter. -/
lemma bitAt_with_guard (w : UInt64) (g : Guard) {i : Nat} (hi : i < 64) :
    bitAt (pack { unpack w with index := g.index, version := g.version }) i =
      if 16 ≤ i ∧ i < 64 then g.bitAt i else bitAt w i := by
  rw [bitAt_pack _ hi, bitAt_unpack w hi, Guard.bitAt]
  dsimp only
  split_ifs <;> first | rfl | omega

lemma bijective_pack : Function.Bijective pack :=
  Function.bijective_iff_has_inverse.mpr ⟨unpack, unpack_pack, pack_unpack⟩

lemma bijective_unpack : Function.Bijective unpack :=
  Function.bijective_iff_has_inverse.mpr ⟨pack, pack_unpack, unpack_pack⟩

end Entry

namespace VersionPair

lemma bijective_pack : Function.Bijective pack :=
  Function.bijective_iff_has_inverse.mpr ⟨unpack, unpack_pack, pack_unpack⟩

lemma bijective_unpack : Function.Bijective unpack :=
  Function.bijective_iff_has_inverse.mpr ⟨pack, pack_unpack, unpack_pack⟩

end VersionPair

/-! ### Words of a stream -/

namespace Quickened

variable {q : Quickened} {p : Nat}

/-- A stream comes from another by writing the bits from `low` up to `high` of one word, and nothing
else. -/
structure Overwrites (q q' : Quickened) (place low high : Nat) (bits : Nat → Bool) : Prop where
  instrs : q'.instrs = q.instrs
  size : q'.cache.size = q.cache.size
  written : ∀ w, q.cache[place]? = some w → ∃ w', q'.cache[place]? = some w' ∧
    ∀ i < 64, bitAt w' i = if low ≤ i ∧ i < high then bits i else bitAt w i
  others : ∀ k, k ≠ place → q'.cache[k]? = q.cache[k]?

/-- Writing a word back with other bits in one field. -/
lemma setWord_overwrites {s low high : Nat} {w : UInt64} {bits : Nat → Bool}
    (hbits : ∀ i < 64, bitAt w i = if low ≤ i ∧ i < high then bits i else bitAt (q.word p s) i) :
    Overwrites q (q.setWord p s w) (base p (q.instrAt p) + s) low high bits where
  instrs := rfl
  size := size_cache_setWord ..
  written w₀ h₀ := by
    have hlt := (Array.getElem?_eq_some_iff.mp h₀).1
    have hword : q.word p s = w₀ := by
      rw [word, Array.getD_eq_getD_getElem?, h₀, Option.getD_some]
    refine ⟨w, ?_, fun i hi => ?_⟩
    · rw [setWord, Array.getElem?_setIfInBounds_self_of_lt hlt]
    · rw [hbits i hi, hword]
  others k hk := by rw [setWord, Array.getElem?_setIfInBounds_ne hk.symm]

lemma setCounter_overwrites (hp : q.hasEntries p = true) (counter : UInt8) :
    Overwrites q (q.setCounter p counter) (base p (q.instrAt p)) 8 16
      fun i => counter.toBitVec.getLsbD (i - 8) := by
  rw [setCounter, if_pos hp]
  exact setWord_overwrites fun _ hi => Entry.bitAt_with_counter _ counter hi

lemma setGuard_overwrites (q : Quickened) (p : Nat) (g : Guard) :
    Overwrites q (q.setGuard p g) (base p (q.instrAt p)) 16 64 g.bitAt :=
  setWord_overwrites fun _ hi => Entry.bitAt_with_guard _ g hi

/-- **Cache words are faithful.** What is packed into a word is unpacked from it, and what is
unpacked is packed again, for both kinds of word; so both are bijections. And whatever word a site
has, a new counter writes the bits of the counter in it and a new guard those of index and version,
and nothing else changes. -/
theorem words_faithful :
    ((∀ e, Entry.unpack (Entry.pack e) = e) ∧ (∀ w, Entry.pack (Entry.unpack w) = w) ∧
      Function.Bijective Entry.pack ∧ Function.Bijective Entry.unpack) ∧
    ((∀ v, VersionPair.unpack (VersionPair.pack v) = v) ∧
      (∀ w, VersionPair.pack (VersionPair.unpack w) = w) ∧
      Function.Bijective VersionPair.pack ∧ Function.Bijective VersionPair.unpack) ∧
    (∀ (q : Quickened) (p : Nat) (counter : UInt8), q.hasEntries p = true →
      Overwrites q (q.setCounter p counter) (base p (q.instrAt p)) 8 16
        fun i => counter.toBitVec.getLsbD (i - 8)) ∧
    ∀ (q : Quickened) (p : Nat) (g : Guard),
      Overwrites q (q.setGuard p g) (base p (q.instrAt p)) 16 64 g.bitAt :=
  ⟨⟨Entry.unpack_pack, Entry.pack_unpack, Entry.bijective_pack, Entry.bijective_unpack⟩,
    ⟨VersionPair.unpack_pack, VersionPair.pack_unpack, VersionPair.bijective_pack,
      VersionPair.bijective_unpack⟩,
    fun _ _ counter hp => setCounter_overwrites hp counter, setGuard_overwrites⟩

/-- A global load that has been given a guard, and then a counter with all bits set. -/
theorem words_faithful_guarded :
    let q := (ofCode #[⟨.nop, 0⟩, ⟨.loadGlobal, 0xab⟩]).setGuard 1 ⟨0x1234, 0xdeadbeef⟩
    q.hasEntries 1 = true ∧ q.cache.toList = [0xdeadbeef123400ab, 0] ∧
      (q.setCounter 1 0xff).cache.toList = [0xdeadbeef1234ffab, 0] ∧
      Overwrites q (q.setCounter 1 0xff) 0 8 16
        fun i => (0xff : UInt8).toBitVec.getLsbD (i - 8) := by
  intro q
  have hp : q.hasEntries 1 = true := by decide +kernel
  obtain ⟨-, -, hcounter, -⟩ := words_faithful
  exact ⟨hp, by decide +kernel, by decide +kernel, hcounter q 1 0xff hp⟩

end Quickened

end AdaptiveVM
