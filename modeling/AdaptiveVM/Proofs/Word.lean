import AdaptiveVM.Quickened.Word
import Mathlib

/-!
Cache words give back what was put into them.

The fields of a word stand side by side, so a field is read off the bits at its own place, and
the bits of the other fields do not reach it.
-/

namespace AdaptiveVM

@[simp] lemma Entry.unpack_pack (e : Entry) : Entry.unpack e.pack = e := by
  obtain ⟨arg, counter, index, version⟩ := e
  simp only [Entry.pack, Entry.unpack, Entry.mk.injEq]
  refine ⟨?_, ?_, ?_, ?_⟩
  · rw [← UInt8.toBitVec_inj]
    ext i hi
    simp
  · rw [← UInt8.toBitVec_inj]
    ext i hi
    simp
    grind
  · rw [← UInt16.toBitVec_inj]
    ext i hi
    simp
    grind
  · rw [← UInt32.toBitVec_inj]
    ext i hi
    simp
    grind

/-- A word holds nothing but its fields. -/
@[simp] lemma Entry.pack_unpack (w : UInt64) : (Entry.unpack w).pack = w := by
  simp only [Entry.pack, Entry.unpack]
  rw [← UInt64.toBitVec_inj]
  ext i hi
  -- the bits of a field stay bits and do not become a remainder
  simp [-UInt64.toUInt64_toUInt8, -UInt64.toUInt64_toUInt16, -UInt64.toUInt64_toUInt32]
  grind

@[simp] lemma VersionPair.unpack_pack (v : VersionPair) : VersionPair.unpack v.pack = v := by
  obtain ⟨first, second⟩ := v
  simp only [VersionPair.pack, VersionPair.unpack, VersionPair.mk.injEq]
  refine ⟨?_, ?_⟩
  · rw [← UInt32.toBitVec_inj]
    ext i hi
    simp
  · rw [← UInt32.toBitVec_inj]
    ext i hi
    simp
    grind

@[simp] lemma VersionPair.pack_unpack (w : UInt64) : (VersionPair.unpack w).pack = w := by
  simp only [VersionPair.pack, VersionPair.unpack]
  rw [← UInt64.toBitVec_inj]
  ext i hi
  simp [-UInt64.toUInt64_toUInt32]
  grind

end AdaptiveVM
