import AdaptiveVM.Proofs.Equivariance
import AdaptiveVM.Proofs.Ranges
import AdaptiveVM.Proofs.Refusals

/-!
Quickening within a limit.

How many bytes a quickened form takes is known from the layout, before anything is made. So a limit
decides only whether there is a form, never which one: code has one form, and every limit with room
for it gives just that. A unit that was refused is as it was, however often, and a unit that has its
form keeps it, with all that its sites have learnt, whatever limit is asked for next.
-/

namespace AdaptiveVM

namespace Quickened

lemma memorySize_ofCode (code : Array Instr) :
    (ofCode code).memorySize = footprint code.size (layout code).2 := by
  have hlayout := laysOut_ofCode code
  rw [memorySize, hlayout.size, hlayout.words, reservedBelow_ofCode, words_eq_cursorAt]

/-- A limit is enough just when the form fits it. -/
lemma quicken_eq (code : Array Instr) (limit : Nat) :
    quicken code limit =
      if (ofCode code).memorySize ≤ limit then .ok (ofCode code)
      else .error (.memory (ofCode code).memorySize limit) := by
  rw [memorySize_ofCode, quicken]
  split
  · next hlt => rw [if_neg (Nat.not_le.mpr hlt)]
  · next hle => rw [if_pos (Nat.not_lt.mp hle)]

end Quickened

namespace World

variable {w : World} {u limit : Nat}

/-- A unit whose attachment is put back stays as it is. -/
lemma setIfInBounds_attachmentAt (w : World) (u : Nat) :
    w.attachments.setIfInBounds u (w.attachmentAt u) = w.attachments := by
  refine Array.ext (Array.size_setIfInBounds ..) fun i hi hi' => ?_
  rw [Array.getElem_setIfInBounds hi']
  split
  · next hui =>
    subst hui
    simp [attachmentAt, hi']
  · rfl

/-- A unit that is quickened stays as it is. -/
lemma tryQuicken_of_isSome (hq : (w.attachmentAt u).quickened.isSome = true) (limit : Nat) :
    w.tryQuicken u limit = (.ok (), w) := by
  obtain ⟨q, hq⟩ := Option.isSome_iff_exists.mp hq
  rw [tryQuicken, Attachment.quicken, hq]
  simp only [setIfInBounds_attachmentAt]

lemma tryQuicken_of_none (hq : (w.attachmentAt u).quickened = none) (limit : Nat) :
    w.tryQuicken u limit =
      let q := Quickened.ofCode (w.heap.unitAt u).instrs
      if q.memorySize ≤ limit then
        (.ok (),
          { w with attachments := w.attachments.setIfInBounds u ((w.attachmentAt u).install q) })
      else (.error (.memory q.memorySize limit), w) := by
  rw [tryQuicken, Attachment.quicken, hq]
  simp only [Quickened.quicken_eq]
  by_cases hroom : (Quickened.ofCode (w.heap.unitAt u).instrs).memorySize ≤ limit
  · simp only [if_pos hroom]
  · simp only [if_neg hroom, setIfInBounds_attachmentAt]

end World

/-- Code that is there stays as it is. -/
lemma Heap.Becomes.unitAt {h h' : Heap} (hb : h.Becomes h') {u : Nat} (hu : u < h.units.size) :
    u < h'.units.size ∧ h'.unitAt u = h.unitAt u := by
  induction hb with
  | same => exact ⟨hu, rfl⟩
  | served _ r ih =>
    rw [Heap.unitAt, (Heap.serve_develops _ r).units]
    exact ih
  | drawn _ s ih => exact ih
  | @coded h' _ cu ih =>
    refine ⟨?_, ?_⟩
    · show u < (h'.units.push cu).size
      rw [Array.size_push]
      exact Nat.lt_succ_of_lt ih.1
    · show (h'.units.push cu).getD u default = _
      rw [getD_push, if_neg (Nat.ne_of_lt ih.1)]
      exact ih.2

namespace Process

/-- **Quickening is exact, depends on no limit, and happens once.** A unit has one quickened form,
of three bytes an instruction and eight a word: a limit gives it that form if there is room, and is
refused otherwise, which changes nothing. Once the unit is quickened no limit changes anything. -/
theorem quickening_exact (as : List Action) (u : Nat)
    (hu : u < (({} : Process).after as).world.heap.units.size) :
    let p := ({} : Process).after as
    let code := (p.world.heap.unitAt u).instrs
    ∃ q : Quickened, q.LaysOut code ∧ q.memorySize = 3 * code.size + 8 * q.cache.size ∧
      (∀ limit, Quickened.quicken code limit =
        if q.memorySize ≤ limit then .ok q else .error (.memory q.memorySize limit)) ∧
      ∀ bs,
        let p' := p.after bs
        let w := p'.world
        ((w.attachmentAt u).quickened = none → ∀ limit,
          (q.memorySize ≤ limit → ∃ w', w.tryQuicken u limit = (.ok (), w') ∧ w'.heap = w.heap ∧
            w'.attachmentAt u = { w.attachmentAt u with quickened := some q } ∧
            ∀ k ≠ u, w'.attachmentAt k = w.attachmentAt k) ∧
          (limit < q.memorySize →
            w.tryQuicken u limit = (.error (.memory q.memorySize limit), w) ∧
            p'.reply (.quicken u limit) = .refused (.limit (.memory q.memorySize limit)) ∧
            p'.perform (.quicken u limit) = p')) ∧
        ((w.attachmentAt u).quickened.isSome → ∀ limit,
          p'.reply (.quicken u limit) = .done ∧ p'.perform (.quicken u limit) = p') := by
  intro p code
  have hlayout := Quickened.laysOut_ofCode code
  refine ⟨Quickened.ofCode code, hlayout, ?_, Quickened.quicken_eq code, fun bs => ?_⟩
  · rw [Quickened.memorySize, Quickened.footprint, hlayout.size]
    exact congrArg₂ _ (Nat.mul_comm ..) (Nat.mul_comm ..)
  intro p' w
  obtain ⟨hu', hcode⟩ := (after_becomes p bs).unitAt hu
  have hsound : w.Sound := after_sound (after_sound World.sound_empty as) bs
  refine ⟨fun hnone limit => ?_, fun hsome limit => ?_⟩
  · have hquicken := World.tryQuicken_of_none hnone limit
    rw [show (w.heap.unitAt u).instrs = code from congrArg _ hcode] at hquicken
    refine ⟨fun hroom => ?_, fun htight => ?_⟩
    · rw [if_pos hroom] at hquicken
      refine ⟨_, hquicken, rfl, ?_, fun k hk => ?_⟩
      · have hlt : u < w.attachments.size := by rw [hsound.size]; exact hu'
        rw [World.attachmentAt, getD_setIfInBounds, if_pos ⟨rfl, hlt⟩]
        rfl
      · rw [World.attachmentAt, getD_setIfInBounds, if_neg fun hc => hk hc.1.symm]
        rfl
    · rw [if_neg (Nat.not_le.mpr htight)] at hquicken
      simp only [reply, perform]
      rw [show p'.world.tryQuicken u limit = _ from hquicken]
      exact ⟨rfl, rfl, rfl⟩
  · simp only [reply, perform]
    rw [show p'.world.tryQuicken u limit = _ from World.tryQuicken_of_isSome hsome limit]
    exact ⟨rfl, rfl⟩

/-- Of two equal units one is specialized and the other is not quickened: it takes 44 bytes and no
byte less, and the specialized one takes nothing. -/
theorem quickening_exact_doubling :
    let p := ({} : Process).after doubling
    p.reply (.quicken 1 43) = .refused (.limit (.memory 44 43)) ∧
      p.perform (.quicken 1 43) = p ∧
      (∃ w, p.world.tryQuicken 1 44 = (.ok (), w) ∧ w.attachmentAt 0 = p.world.attachmentAt 0) ∧
      p.reply (.quicken 0 0) = .done ∧ p.perform (.quicken 0 0) = p := by
  have hunits := And.intro (quickening_exact doubling 1 (by decide +kernel))
    (quickening_exact doubling 0 (by decide +kernel))
  have hstate : let w := (({} : Process).after doubling).world
      (w.attachmentAt 1).quickened.isNone = true ∧ (w.attachmentAt 0).quickened.isSome = true ∧
      (Quickened.quicken (w.heap.unitAt 1).instrs 44).toBool = true ∧
      (Quickened.quicken (w.heap.unitAt 1).instrs 43).toBool = false := by decide +kernel
  -- The four facts are all that is needed of the run.
  generalize ({} : Process).after doubling = p at hunits hstate ⊢
  obtain ⟨⟨q, -, -, hexact, hfirst⟩, ⟨_, -, -, -, hagain⟩⟩ := hunits
  obtain ⟨hnone, hsome, hroom, htight⟩ := hstate
  have hneed : q.memorySize = 44 := by
    rw [hexact] at hroom htight
    split at hroom
    · split at htight
      · cases htight
      · omega
    · cases hroom
  have hfirst := (hfirst []).1 (Option.isNone_iff_eq_none.mp hnone)
  obtain ⟨-, hreply, hsame⟩ := (hfirst 43).2 (by omega)
  obtain ⟨w, hw, -, -, hothers⟩ := (hfirst 44).1 (by omega)
  rw [hneed] at hreply
  exact ⟨hreply, hsame, ⟨w, hw, hothers 0 (by decide)⟩, (hagain []).2 hsome 0⟩

end Process

end AdaptiveVM
