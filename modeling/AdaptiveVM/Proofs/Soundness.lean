import AdaptiveVM.Proofs.Guards

/-!
Sound worlds.

In a sound world the heap is well formed, all code is checked, and every quickened stream stands
for its code and is trusted at each of its sites. What is quiet keeps a world sound, and so does
what happens at a site.
-/

namespace AdaptiveVM

/-- A quickened stream stands for the code of a unit, and each of its members is trusted. -/
structure Quickened.Sound (q : Quickened) (h : Heap) (u : CodeUnit) : Prop where
  erases : q.ErasesTo u.instrs
  trusted : ∀ p, (q.instrAt p).op.Trusted h u (q.entryAt p) (q.versionsAt p)

structure World.Sound (w : World) : Prop where
  heap : w.heap.WellFormed
  size : w.attachments.size = w.heap.units.size
  checked : ∀ u, (w.heap.unitAt u).Checked
  streams : ∀ u q, (w.attachmentAt u).quickened = some q → q.Sound w.heap (w.heap.unitAt u)

namespace Quickened

variable {h h' : Heap} {u : CodeUnit} {q : Quickened} {p : Nat} {fam : Family} {t : Trial}
  {ev : SiteEvent}

lemma isAdaptive_adaptive (f : Family) : (QuickOp.adaptive f).isAdaptive = true := by
  cases f <;> rfl

/-- A stream that is new has no specialized site. -/
lemma isAdaptive_ofCode {code : Array Instr} {i : Nat}
    (h : ((ofCode code).instrAt i).op.family?.isSome = true) :
    ((ofCode code).instrAt i).op.isAdaptive = true := by
  obtain ⟨f, hf⟩ := Option.isSome_iff_exists.mp h
  obtain ⟨instr, hi, -⟩ := (erasesTo_ofCode code).getElem?_of_family hf
  rcases instrAt_ofCode_cases hi with hplain | ⟨f', arg, -, hmember⟩
  · rw [hplain, family_plain] at hf
    cases hf
  · rw [hmember]
    exact isAdaptive_adaptive f'

lemma sound_ofCode (h : Heap) (u : CodeUnit) : (ofCode u.instrs).Sound h u where
  erases := erasesTo_ofCode u.instrs
  trusted p := by
    rcases hi : u.instrs[p]? with _ | i
    · have hp : u.instrs.size ≤ p := by simpa using hi
      rw [instrAt_of_size_le (by simpa using hp)]
      trivial
    · rcases instrAt_ofCode_cases hi with hp | ⟨f, arg, -, hp⟩
      · rw [hp]
        trivial
      · rw [hp]
        exact QuickOp.trusted_of_isAdaptive (isAdaptive_adaptive f)

lemma Sound.later (hq : q.Sound h u) (hv : h.Versioned) (hl : Heap.Later h h') : q.Sound h' u :=
  ⟨hq.erases, fun p => (hq.trusted p).later hv hl⟩

/-- Without words there is nothing to trust. -/
lemma trusted_of_hasEntries_false (hp : q.hasEntries p = false) (e : Entry) (v : VersionPair) :
    (q.instrAt p).op.Trusted h u e v := by
  rw [hasEntries] at hp
  rcases hop : (q.instrAt p).op with op | member | member | member | member
  · trivial
  · rw [hop] at hp
    cases hp
  · rw [hop] at hp
    cases hp
  · rw [hop] at hp
    cases hp
  · trivial

/-- The member that an event leaves is adaptive, or was there before and its words are kept, or is
what an attempt came to. -/
lemma event_trusted (hv : h.Versioned) (hf : Machine.Finds h u q p fam t)
    (ht : (q.instrAt p).op.Trusted h u (q.entryAt p) (q.versionsAt p)) (c : Config) (n : UInt8) :
    ((t.event c n).member fam (q.instrAt p).op).Trusted h u
      (match (t.event c n).attempt? with
        | some attempt => attempt.entry (q.entryAt p)
        | none => q.entryAt p)
      (match (t.event c n).attempt? with
        | some attempt => attempt.pair (q.versionsAt p)
        | none => q.versionsAt p) := by
  cases t with
  | adaptive attempt =>
    rcases Trial.event_adaptive_cases c n attempt with
      ⟨-, he⟩ | ⟨-, ⟨op, hop, he⟩ | ⟨reason, -, he⟩⟩
    · rw [he]
      exact ht
    · rw [he]
      exact hf.attempt_trusted hv op hop
    · rw [he]
      exact QuickOp.trusted_of_isAdaptive hf.fits.1
  | guarded holds =>
    rcases Trial.event_guarded_cases c n holds with ⟨-, he⟩ | ⟨-, -, he⟩ | ⟨-, -, he⟩
    · rw [he]
      exact ht
    · rw [he]
      exact ht
    · rw [he]
      exact QuickOp.trusted_of_isAdaptive (isAdaptive_adaptive fam)

/-- What an execution of a site does to its stream leaves the stream sound. -/
lemma Sound.apply (hq : q.Sound h u) (hv : h.Versioned) (hf : Machine.Finds h u q p fam t)
    (c : Config) (n : UInt8) : (q.apply p fam (t.event c n)).Sound h u := by
  have hev : (t.event c n).Fits fam := Trial.event_fits hf.fits
  have hlaid := hq.erases.laid
  refine ⟨hq.erases.apply hf.family hev, fun p' => ?_⟩
  by_cases hown : (q.apply p fam (t.event c n)).hasEntries p' = true
  · refine (apply_touches hf.family hev).forall_words hlaid
      (P := fun op e v => op.Trusted h u e v) (fun p' _ => hq.trusted p') (fun hp => ?_) p' hown
    rw [op_apply hf.family, entryAt_apply hlaid hf.family hev hp,
      versionsAt_apply hlaid hf.family hev hp]
    exact (QuickOp.trusted_counter _).mpr (event_trusted hv hf (hq.trusted p) c n)
  · exact trusted_of_hasEntries_false (by simpa using hown) _ _

end Quickened

namespace World.Sound

variable {w : World} {m : Machine} {vm : Vm} {h' : Heap}

/-- The heap may develop under the streams. -/
lemma develop (hw : w.Sound) (hd : w.heap.Develops h') : Sound ⟨h', w.attachments⟩ := by
  obtain ⟨hwf, hl⟩ := hd.keeps hw.heap
  have hunit (u : Nat) : h'.unitAt u = w.heap.unitAt u := by
    rw [Heap.unitAt, hd.units, Heap.unitAt]
  refine ⟨hwf, by rw [hw.size]; exact congrArg Array.size hd.units.symm, fun u => ?_,
    fun u q hq => ?_⟩
  · show (h'.unitAt u).Checked
    rw [hunit]
    exact hw.checked u
  · show q.Sound h' (h'.unitAt u)
    rw [hunit]
    exact (hw.streams u q hq).later hw.heap.versioned hl

/-- Units may be quickened. -/
lemma warm (hw : w.Sound) {a : Array Attachment} (ha : Machine.Warmed w.heap w.attachments a) :
    Sound ⟨w.heap, a⟩ where
  heap := hw.heap
  size := ha.size.trans hw.size
  checked := hw.checked
  streams u q hq := by
    rcases ha.quickened u with hsame | ⟨-, hnew⟩
    · exact hw.streams u q (hsame.symm.trans hq)
    · cases hnew.symm.trans hq
      exact Quickened.sound_ofCode _ _

lemma quiet (hw : w.Sound) (hq : Machine.Quiet w.heap w.attachments vm m) :
    Sound ⟨m.heap, m.attachments⟩ :=
  (hw.warm hq.warmed).develop hq.heap

/-- A site is executed. -/
lemma visit (hw : w.Sound) {u p : Nat} {q : Quickened} {fam : Family} {t : Trial}
    (hq : (w.attachmentAt u).quickened = some q)
    (hf : Machine.Finds w.heap (w.heap.unitAt u) q p fam t) (vm : Vm) :
    Sound ⟨w.heap, (Machine.visit w.attachments vm u p fam t).1⟩ where
  heap := hw.heap
  size := (Array.size_modify ..).trans hw.size
  checked := hw.checked
  streams u' q' hq' := by
    change ((w.attachments.modify u _).getD u' default).quickened = some q' at hq'
    rw [getD_modify] at hq'
    split at hq'
    · next hc =>
      obtain ⟨rfl, -⟩ := hc
      change (w.attachmentAt u).quickened.map _ = some q' at hq'
      rw [hq] at hq'
      cases hq'
      exact (hw.streams u q hq).apply hw.heap.versioned hf _ _
    · exact hw.streams u' q' hq'

end World.Sound

end AdaptiveVM
