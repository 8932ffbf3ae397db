import AdaptiveVM.Proofs.Layout

/-!
What an event does to a quickened stream.

Each change of a site stays within the site: it leaves the instructions at all other positions
and the words outside the site's own range as they are, and a site keeps its words whatever
member it moves to. What the site itself holds afterwards is read off the event.
-/

namespace AdaptiveVM

/-! ### What an event leaves behind -/

namespace Attempt

/-- The first word of a site after an attempt. -/
def entry (t : Attempt) (e : Entry) : Entry :=
  match t.guard with
  | some g => { e with index := g.index, version := g.version }
  | none => e

/-- The second word of a site after an attempt. -/
def pair (t : Attempt) (v : VersionPair) : VersionPair := t.versions.getD v

/-- An attempt for a site of a family: it comes to a specialized member of the family, if to any,
and writes no words where the family has none. -/
structure Fits (t : Attempt) (family : Family) : Prop where
  member : ∀ op, t.verdict = .ok op → op.family? = some family ∧ op.isAdaptive = false
  silent : family.entries = 0 → t.guard = none ∧ t.versions = none

end Attempt

namespace SiteEvent

/-- The counter after an event. -/
def counter : SiteEvent → UInt8
  | .counted n => n
  | .specialized _ _ n => n
  | .refused .. => 0
  | .hit n => n
  | .missed n => n
  | .fellBack => 0

/-- The member after an event. -/
def member (family : Family) (op : QuickOp) : SiteEvent → QuickOp
  | .specialized op' .. => op'
  | .fellBack => .adaptive family
  | _ => op

/-- The attempt that an event comes from. -/
def attempt? : SiteEvent → Option Attempt
  | .specialized _ t _ => some t
  | .refused _ t => some t
  | _ => none

/-- An event that a site of a family can see. -/
structure Fits (ev : SiteEvent) (family : Family) : Prop where
  member : ∀ op, op.family? = some family → (ev.member family op).family? = some family
  silent : ∀ t, ev.attempt? = some t → family.entries = 0 → t.guard = none ∧ t.versions = none

end SiteEvent

namespace Quickened

variable {q q' q'' : Quickened} {p p' : Nat}

/-! ### Changes within a site -/

/-- The streams differ only within the site at a position, which keeps its words. -/
structure Touches (q q' : Quickened) (p : Nat) : Prop where
  size : q'.instrs.size = q.instrs.size
  words : q'.cache.size = q.cache.size
  instr : ∀ p', p' ≠ p → q'.instrAt p' = q.instrAt p'
  cache : ∀ i, ¬ (q.hasEntries p = true ∧ base p (q.instrAt p) ≤ i ∧
    i < base p (q.instrAt p) + 2) → q'.cache.getD i 0 = q.cache.getD i 0
  own : q'.hasEntries p = q.hasEntries p
  arg : q.hasEntries p = true → (q'.instrAt p).arg = (q.instrAt p).arg

namespace Touches

lemma refl (q : Quickened) (p : Nat) : Touches q q p :=
  ⟨rfl, rfl, fun _ _ => rfl, fun _ _ => rfl, rfl, fun _ => rfl⟩

lemma hasEntries (h : Touches q q' p) (p' : Nat) : q'.hasEntries p' = q.hasEntries p' := by
  by_cases hp : p' = p
  · rw [hp, h.own]
  · rw [hasEntries_eq, hasEntries_eq, h.instr p' hp]

lemma base_eq (h : Touches q q' p) (hp : q.hasEntries p = true) :
    base p (q'.instrAt p) = base p (q.instrAt p) := by
  rw [base, base, h.arg hp]

lemma trans (h : Touches q q' p) (h' : Touches q' q'' p) : Touches q q'' p where
  size := h'.size.trans h.size
  words := h'.words.trans h.words
  instr p' hp := (h'.instr p' hp).trans (h.instr p' hp)
  cache i hi := by
    refine (h'.cache i fun hc => hi ?_).trans (h.cache i hi)
    obtain ⟨hown, hlo, hhi⟩ := hc
    rw [h.own] at hown
    rw [h.base_eq hown] at hlo hhi
    exact ⟨hown, hlo, hhi⟩
  own := h'.own.trans h.own
  arg hp := (h'.arg (by rw [h.own, hp])).trans (h.arg hp)

lemma laid (h : Touches q q' p) (hq : q.Laid) : q'.Laid := by
  refine hq.congr h.words h.hasEntries fun p' hp' => ?_
  by_cases hp : p' = p
  · subst hp
    exact h.arg hp'
  · rw [h.instr p' hp]

/-- The words of every other site stay as they are. -/
lemma word (h : Touches q q' p) (hq : q.Laid) (hne : p' ≠ p) (hp' : q.hasEntries p' = true)
    {s : Nat} (hs : s < 2) : q'.word p' s = q.word p' s := by
  rw [Quickened.word, Quickened.word, h.instr p' hne]
  refine h.cache _ fun hc => ?_
  obtain ⟨hown, hlo, hhi⟩ := hc
  exact hq.ne hown hp' (Ne.symm hne)
    (s := base p' (q.instrAt p') + s - base p (q.instrAt p)) (by omega) hs (by omega)

lemma entryAt (h : Touches q q' p) (hq : q.Laid) (hne : p' ≠ p) (hp' : q.hasEntries p' = true) :
    q'.entryAt p' = q.entryAt p' := by
  rw [Quickened.entryAt, Quickened.entryAt, h.word hq hne hp' (by omega)]

lemma versionsAt (h : Touches q q' p) (hq : q.Laid) (hne : p' ≠ p)
    (hp' : q.hasEntries p' = true) : q'.versionsAt p' = q.versionsAt p' := by
  rw [Quickened.versionsAt, Quickened.versionsAt, h.word hq hne hp' (by omega)]

/-- What holds of the words of every site, and of those of the site itself afterwards, holds of
those of every site afterwards. -/
lemma forall_words (h : Touches q q' p) (hq : q.Laid)
    {P : QuickOp → Entry → VersionPair → Prop}
    (hall : ∀ p', q.hasEntries p' = true → P (q.instrAt p').op (q.entryAt p') (q.versionsAt p'))
    (hsite : q.hasEntries p = true → P (q'.instrAt p).op (q'.entryAt p) (q'.versionsAt p))
    (p' : Nat) (hp' : q'.hasEntries p' = true) :
    P (q'.instrAt p').op (q'.entryAt p') (q'.versionsAt p') := by
  rw [h.hasEntries] at hp'
  by_cases hp : p' = p
  · subst hp
    exact hsite hp'
  · rw [h.instr p' hp, h.entryAt hq hp hp', h.versionsAt hq hp hp']
    exact hall p' hp'

/-- The counter of every other site stays as it is, wherever the site keeps it. -/
lemma counter (h : Touches q q' p) (hq : q.Laid) (hne : p' ≠ p) :
    q'.counter p' = q.counter p' := by
  unfold Quickened.counter
  rw [h.hasEntries p']
  split
  · next hp' => rw [h.entryAt hq hne hp']
  · rw [h.instr p' hne]

end Touches

/-! ### The single writes -/

lemma instrAt_modify_self (f : QuickInstr → QuickInstr) (hp : p < q.instrs.size) :
    ({ q with instrs := q.instrs.modify p f } : Quickened).instrAt p = f (q.instrAt p) := by
  simp [instrAt, Array.getD_eq_getD_getElem?, Array.getElem_modify, hp]

lemma instrAt_modify_ne (f : QuickInstr → QuickInstr) (hne : p' ≠ p) :
    ({ q with instrs := q.instrs.modify p f } : Quickened).instrAt p' = q.instrAt p' := by
  simp [instrAt, Array.getD_eq_getD_getElem?, Array.getElem?_modify, Ne.symm hne]

lemma lt_size_of_family {f : Family} (h : (q.instrAt p).op.family? = some f) :
    p < q.instrs.size := by
  by_contra hc
  rw [instrAt_of_size_le (by omega)] at h
  simp [default, QuickInstr.plain, QuickOp.family?] at h

lemma setWord_touches (hp : q.hasEntries p = true) {s : Nat} (hs : s < 2) (w : UInt64) :
    Touches q (q.setWord p s w) p where
  size := rfl
  words := size_cache_setWord ..
  instr _ _ := rfl
  cache i hi := by
    have hne : base p (q.instrAt p) + s ≠ i := fun hc => hi ⟨hp, by omega, by omega⟩
    simp only [setWord, Array.getD_eq_getD_getElem?]
    rw [Array.getElem?_setIfInBounds_ne hne]
  own := rfl
  arg _ := rfl

lemma setEntry_touches (hp : q.hasEntries p = true) (e : Entry) : Touches q (q.setEntry p e) p :=
  setWord_touches hp (by omega) _

lemma setVersions_touches (hp : q.hasEntries p = true) (v : VersionPair) :
    Touches q (q.setVersions p v) p :=
  setWord_touches hp (by omega) _

lemma setMember_touches {f : Family} (h : (q.instrAt p).op.family? = some f) {op : QuickOp}
    (hop : op.family? = some f) : Touches q (q.setMember p op) p where
  size := by simp [setMember]
  words := rfl
  instr p' hne := instrAt_modify_ne _ hne
  cache _ _ := rfl
  own := by
    rw [hasEntries_eq, hasEntries_eq, setMember, instrAt_modify_self _ (lt_size_of_family h)]
    exact owning_congr (hop.trans h.symm)
  arg _ := by rw [setMember, instrAt_modify_self _ (lt_size_of_family h)]

lemma setCounter_touches {f : Family} (h : (q.instrAt p).op.family? = some f) (c : UInt8) :
    Touches q (q.setCounter p c) p := by
  unfold setCounter
  split
  · next hp => exact setEntry_touches hp _
  · next hp =>
    have hself := instrAt_modify_self (fun i => { i with arg := c }) (lt_size_of_family h)
    refine ⟨by simp, rfl, fun p' hne => instrAt_modify_ne _ hne, fun _ _ => rfl, ?_, ?_⟩
    · rw [hasEntries_eq, hself, hasEntries_eq]
    · intro hp'
      exact absurd hp' hp

lemma write_touches {t : Attempt}
    (ht : q.hasEntries p = false → t.guard = none ∧ t.versions = none) :
    Touches q (q.write p t) p := by
  rcases hp : q.hasEntries p with _ | _
  · obtain ⟨hg, hv⟩ := ht hp
    rw [write, hg, hv]
    exact .refl q p
  · unfold write
    rcases t.guard with _ | g <;> rcases t.versions with _ | v
    · exact .refl q p
    · exact setVersions_touches hp v
    · exact setEntry_touches hp _
    · exact (setEntry_touches hp _).trans (setVersions_touches (by exact hp) v)

/-! ### What the site holds afterwards -/

lemma op_setCounter (q : Quickened) (p : Nat) (c : UInt8) (p' : Nat) :
    ((q.setCounter p c).instrAt p').op = (q.instrAt p').op := by
  unfold setCounter
  split
  · rfl
  · by_cases hne : p' = p
    · subst hne
      by_cases hp : p' < q.instrs.size
      · rw [instrAt_modify_self _ hp]
      · rw [instrAt_of_size_le (by simpa using hp), instrAt_of_size_le (by simpa using hp)]
    · rw [instrAt_modify_ne _ hne]

lemma Laid.counter_setCounter (hq : q.Laid) {f : Family}
    (h : (q.instrAt p).op.family? = some f) (c : UInt8) : (q.setCounter p c).counter p = c := by
  rcases hp : q.hasEntries p with _ | _
  · have hself := instrAt_modify_self (fun i => { i with arg := c }) (lt_size_of_family h)
    have hown := (setCounter_touches h c).own
    rw [counter, hown, hp, if_neg (by decide), setCounter, hp, if_neg (by decide), hself]
  · have hown := (setCounter_touches h c).own
    rw [counter, hown, hp, if_pos rfl, setCounter, hp, if_pos rfl, hq.entryAt_setEntry_self hp]

lemma Laid.entryAt_setCounter (hq : q.Laid) (hp : q.hasEntries p = true) (c : UInt8) :
    (q.setCounter p c).entryAt p = { q.entryAt p with counter := c } := by
  rw [setCounter, if_pos hp, hq.entryAt_setEntry_self hp]

lemma versionsAt_setEntry (q : Quickened) (p : Nat) (e : Entry) :
    (q.setEntry p e).versionsAt p = q.versionsAt p := by
  rw [versionsAt, setEntry, Quickened.word_setWord_ne _ (by omega), versionsAt]

lemma versionsAt_setCounter (hp : q.hasEntries p = true) (c : UInt8) :
    (q.setCounter p c).versionsAt p = q.versionsAt p := by
  rw [setCounter, if_pos hp, versionsAt_setEntry]

lemma entryAt_setVersions (q : Quickened) (p : Nat) (v : VersionPair) :
    (q.setVersions p v).entryAt p = q.entryAt p := by
  rw [entryAt, setVersions, Quickened.word_setWord_ne _ (by omega), entryAt]

lemma Laid.versionsAt_setVersions (hq : q.Laid) (hp : q.hasEntries p = true) (v : VersionPair) :
    (q.setVersions p v).versionsAt p = v := by
  rw [versionsAt, setVersions, hq.word_setWord_self hp (by omega), VersionPair.unpack_pack]

lemma word_setMember (q : Quickened) (p : Nat) (op : QuickOp) (p' s : Nat) :
    (q.setMember p op).word p' s = q.word p' s := by
  have harg : ((q.setMember p op).instrAt p').arg = (q.instrAt p').arg := by
    by_cases hne : p' = p
    · subst hne
      by_cases hp : p' < q.instrs.size
      · rw [setMember, instrAt_modify_self _ hp]
      · rw [instrAt_of_size_le (by simpa [setMember] using hp),
          instrAt_of_size_le (by simpa using hp)]
    · rw [setMember, instrAt_modify_ne _ hne]
  rw [word, word, base, base, harg]
  rfl

lemma entryAt_setMember (q : Quickened) (p : Nat) (op : QuickOp) (p' : Nat) :
    (q.setMember p op).entryAt p' = q.entryAt p' := by
  rw [entryAt, word_setMember, entryAt]

lemma versionsAt_setMember (q : Quickened) (p : Nat) (op : QuickOp) (p' : Nat) :
    (q.setMember p op).versionsAt p' = q.versionsAt p' := by
  rw [versionsAt, word_setMember, versionsAt]

@[simp] lemma instrAt_write (q : Quickened) (p : Nat) (t : Attempt) (p' : Nat) :
    (q.write p t).instrAt p' = q.instrAt p' := by
  unfold write
  rcases t.guard with _ | g <;> rcases t.versions with _ | v <;> rfl

lemma Laid.entryAt_write (hq : q.Laid) (hp : q.hasEntries p = true) (t : Attempt) :
    (q.write p t).entryAt p = t.entry (q.entryAt p) := by
  unfold write Attempt.entry
  rcases t.guard with _ | g <;> rcases t.versions with _ | v
  · rfl
  · exact entryAt_setVersions q p v
  · exact hq.entryAt_setEntry_self hp _
  · exact (entryAt_setVersions _ p v).trans (hq.entryAt_setEntry_self hp _)

lemma Laid.versionsAt_write (hq : q.Laid) (hp : q.hasEntries p = true) (t : Attempt) :
    (q.write p t).versionsAt p = t.pair (q.versionsAt p) := by
  unfold write Attempt.pair
  rcases t.guard with _ | g <;> rcases t.versions with _ | v
  · rfl
  · exact hq.versionsAt_setVersions hp v
  · exact versionsAt_setEntry q p _
  · exact (hq.setEntry p _).versionsAt_setVersions (by exact hp) v

/-! ### Whole events -/

/-- The words that the attempt behind an event leaves, if there was one. -/
def written (q : Quickened) (p : Nat) (ev : SiteEvent) : Quickened :=
  match ev.attempt? with
  | some t => q.write p t
  | none => q

lemma instrAt_written (q : Quickened) (p : Nat) (ev : SiteEvent) (p' : Nat) :
    (q.written p ev).instrAt p' = q.instrAt p' := by
  unfold written
  split
  · exact instrAt_write ..
  · rfl

lemma hasEntries_of_family {f : Family} (h : (q.instrAt p).op.family? = some f) :
    q.hasEntries p = decide (0 < f.entries) := by
  rw [hasEntries_eq, owning, h]

lemma written_touches {f : Family} {ev : SiteEvent} (h : (q.instrAt p).op.family? = some f)
    (hev : ev.Fits f) : Touches q (q.written p ev) p := by
  unfold written
  split
  · next t ht =>
    refine write_touches fun hp => hev.silent t ht ?_
    rw [hasEntries_of_family h, decide_eq_false_iff_not] at hp
    omega
  · exact .refl q p

lemma setMember_eq_self {op : QuickOp} (h : (q.instrAt p).op = op) : q.setMember p op = q := by
  have hinstrs : q.instrs.modify p (fun i => { i with op }) = q.instrs := by
    ext i hi hi'
    · simp
    · by_cases hip : p = i
      · subst hip
        simp [Array.getElem_modify, ← h, instrAt, Array.getD_eq_getD_getElem?, hi']
      · simp [Array.getElem_modify, hip]
  rw [setMember, hinstrs]

/-- An event is what its attempt writes, then another member, then the counter. -/
lemma apply_eq (q : Quickened) (p : Nat) (f : Family) (ev : SiteEvent) :
    q.apply p f ev =
      ((q.written p ev).setMember p (ev.member f (q.instrAt p).op)).setCounter p ev.counter := by
  have hwrite (t : Attempt) : (q.write p t).setMember p (q.instrAt p).op = q.write p t :=
    setMember_eq_self (by rw [instrAt_write])
  cases ev <;> simp only [apply, written, SiteEvent.attempt?, SiteEvent.member, SiteEvent.counter,
    setMember_eq_self, hwrite]

variable {f : Family} {ev : SiteEvent}

lemma family_written (ev : SiteEvent) (h : (q.instrAt p).op.family? = some f) :
    ((q.written p ev).instrAt p).op.family? = some f := by
  rw [instrAt_written, h]

lemma op_setMember (h : (q.instrAt p).op.family? = some f) (op : QuickOp) :
    ((q.setMember p op).instrAt p).op = op := by
  rw [setMember, instrAt_modify_self _ (lt_size_of_family h)]

/-- **An event stays within its site.** -/
theorem apply_touches (h : (q.instrAt p).op.family? = some f) (hev : ev.Fits f) :
    Touches q (q.apply p f ev) p := by
  have hmember := hev.member _ h
  have hw := family_written ev h
  rw [apply_eq]
  refine (written_touches h hev).trans ((setMember_touches hw hmember).trans ?_)
  exact setCounter_touches (by rw [op_setMember hw, hmember]) _

lemma op_apply (h : (q.instrAt p).op.family? = some f) :
    ((q.apply p f ev).instrAt p).op = ev.member f (q.instrAt p).op := by
  rw [apply_eq, op_setCounter, op_setMember (family_written ev h)]

/-- The stream just before the counter of an event is written. -/
lemma laid_member_written (hq : q.Laid) (h : (q.instrAt p).op.family? = some f)
    (hev : ev.Fits f) :
    ((q.written p ev).setMember p (ev.member f (q.instrAt p).op)).Laid :=
  ((written_touches h hev).trans
    (setMember_touches (family_written ev h) (hev.member _ h))).laid hq

lemma counter_apply (hq : q.Laid) (h : (q.instrAt p).op.family? = some f) (hev : ev.Fits f) :
    (q.apply p f ev).counter p = ev.counter := by
  rw [apply_eq]
  refine (laid_member_written hq h hev).counter_setCounter (f := f) ?_ _
  rw [op_setMember (family_written ev h), hev.member _ h]

lemma hasEntries_member_written (h : (q.instrAt p).op.family? = some f) (hev : ev.Fits f) :
    ((q.written p ev).setMember p (ev.member f (q.instrAt p).op)).hasEntries p =
      q.hasEntries p :=
  ((written_touches h hev).trans
    (setMember_touches (family_written ev h) (hev.member _ h))).own

lemma entryAt_apply (hq : q.Laid) (h : (q.instrAt p).op.family? = some f) (hev : ev.Fits f)
    (hp : q.hasEntries p = true) :
    (q.apply p f ev).entryAt p =
      { (match ev.attempt? with
          | some t => t.entry (q.entryAt p)
          | none => q.entryAt p) with counter := ev.counter } := by
  rw [apply_eq, (laid_member_written hq h hev).entryAt_setCounter
    (by rw [hasEntries_member_written h hev, hp]), entryAt_setMember]
  unfold written
  rcases ev.attempt? with _ | t
  · rfl
  · rw [hq.entryAt_write hp]

lemma versionsAt_apply (hq : q.Laid) (h : (q.instrAt p).op.family? = some f) (hev : ev.Fits f)
    (hp : q.hasEntries p = true) :
    (q.apply p f ev).versionsAt p =
      match ev.attempt? with
      | some t => t.pair (q.versionsAt p)
      | none => q.versionsAt p := by
  rw [apply_eq, versionsAt_setCounter (by rw [hasEntries_member_written h hev, hp]),
    versionsAt_setMember]
  unfold written
  rcases ev.attempt? with _ | t
  · rfl
  · rw [hq.versionsAt_write hp]

/-- The operand of the static instruction is never overwritten. -/
lemma arg_entryAt_apply (hq : q.Laid) (h : (q.instrAt p).op.family? = some f) (hev : ev.Fits f)
    (hp : q.hasEntries p = true) : ((q.apply p f ev).entryAt p).arg = (q.entryAt p).arg := by
  rw [entryAt_apply hq h hev hp]
  rcases ev.attempt? with _ | t
  · rfl
  · show (t.entry (q.entryAt p)).arg = _
    unfold Attempt.entry
    rcases t.guard with _ | g <;> rfl

end Quickened

end AdaptiveVM
