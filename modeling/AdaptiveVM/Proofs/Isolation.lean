import AdaptiveVM.Proofs.Counters
import AdaptiveVM.Proofs.Lockstep
import AdaptiveVM.Proofs.Ranges
import AdaptiveVM.Proofs.Refusals

/-!
What happens at a site stays at the site.

An execution of a site is made of a few changes: the counter is set, another member is put in place,
a specializer writes its guard. None of them reaches beyond the instruction of the site and its own
words, so however many of them there are, other sites do not notice. Within the site each change
keeps what it is not about.
-/

namespace AdaptiveVM

/-! ### The changes that executions are made of -/

inductive SiteChange where
  /-- One more execution of the adaptive member. -/
  | tick
  /-- An attempt was refused, and counting starts over. -/
  | reset
  | count (n : UInt8)
  | specialize (op : QuickOp) (n : UInt8)
  | deoptimize
  /-- A specializer writes what it leaves in the words of the site. -/
  | attempt (t : Attempt)

/-- The change can be made to a site of the family: members stay within it, and attempts come from
its specializer. -/
def SiteChange.Suits (h : Heap) (fam : Family) : SiteChange → Prop
  | .specialize op _ => op.family? = some fam
  | .attempt t => ∃ vs, Specialize.Offers h fam vs t
  | _ => True

/-- The changes of an event, in the order in which they are made. -/
def SiteEvent.changes : SiteEvent → List SiteChange
  | .counted _ => [.tick]
  | .specialized op t n => [.tick, .attempt t, .specialize op n]
  | .refused _ t => [.tick, .attempt t, .reset]
  | .hit n | .missed n => [.count n]
  | .fellBack => [.deoptimize]

namespace Quickened

variable {q q' q'' a b : Quickened} {p : Nat} {fam : Family} {h : Heap}

def change (q : Quickened) (p : Nat) (fam : Family) : SiteChange → Quickened
  | .tick => q.setCounter p (saturatingAdd (q.counter p) 1)
  | .reset => q.setCounter p 0
  | .count n => q.setCounter p n
  | .specialize op n => (q.setMember p op).setCounter p n
  | .deoptimize => (q.setMember p (.adaptive fam)).setCounter p 0
  | .attempt t => q.write p t

def changes (q : Quickened) (p : Nat) (fam : Family) (cs : List SiteChange) : Quickened :=
  cs.foldl (fun q c => q.change p fam c) q

/-! ### Nothing reaches beyond the site -/

lemma write_fits_touches (hf : (q.instrAt p).op.family? = some fam) {t : Attempt}
    (ht : t.Fits fam) : Touches q (q.write p t) p := by
  refine write_touches fun hp => ht.silent ?_
  rw [hasEntries_of_family hf, decide_eq_false_iff_not] at hp
  omega

lemma rewrite_touches (hf : (q.instrAt p).op.family? = some fam) {op : QuickOp}
    (hop : op.family? = some fam) (n : UInt8) :
    Touches q ((q.setMember p op).setCounter p n) p := by
  have hmember := setMember_touches hf hop
  refine hmember.trans (setCounter_touches (f := fam) ?_ n)
  rw [op_setMember hf, hop]

lemma change_touches (hf : (q.instrAt p).op.family? = some fam) {c : SiteChange}
    (hc : c.Suits h fam) : Touches q (q.change p fam c) p := by
  cases c with
  | tick => exact setCounter_touches hf _
  | reset => exact setCounter_touches hf _
  | count n => exact setCounter_touches hf n
  | specialize op n => exact rewrite_touches hf hc n
  | deoptimize => exact rewrite_touches hf (family_adaptive fam) 0
  | attempt t =>
    obtain ⟨vs, ho⟩ := hc
    exact write_fits_touches hf ho.fits

/-- A change keeps the site in its family. -/
lemma family_change (hf : (q.instrAt p).op.family? = some fam) {c : SiteChange}
    (hc : c.Suits h fam) : ((q.change p fam c).instrAt p).op.family? = some fam := by
  cases c with
  | tick => rw [change, op_setCounter, hf]
  | reset => rw [change, op_setCounter, hf]
  | count n => rw [change, op_setCounter, hf]
  | specialize op n =>
    rw [change, op_setCounter, op_setMember hf]
    exact hc
  | deoptimize => rw [change, op_setCounter, op_setMember hf, family_adaptive]
  | attempt t => rw [change, instrAt_write, hf]

/-- **However many changes are made**, they stay within the site. -/
theorem changes_touches (hf : (q.instrAt p).op.family? = some fam) {cs : List SiteChange}
    (hcs : ∀ c ∈ cs, c.Suits h fam) : Touches q (q.changes p fam cs) p := by
  induction cs generalizing q with
  | nil => exact .refl q p
  | cons c cs ih =>
    have hc := hcs c List.mem_cons_self
    have hrest := ih (family_change hf hc) fun c' hc' => hcs c' (List.mem_cons_of_mem _ hc')
    exact (change_touches hf hc).trans hrest

/-- The streams agree but for one site: on the instructions at all other positions, on the words
outside its range, and so on everything that another site is or holds. -/
structure Isolates (q q' : Quickened) (p : Nat) : Prop where
  instrs : ∀ p', p' ≠ p → q'.instrs[p']? = q.instrs[p']?
  words : ∀ k, (∀ r, q.cacheRange? p = some r → ¬ (r.1 ≤ k ∧ k < r.2)) →
    q'.cache[k]? = q.cache[k]?
  ranges : ∀ p', q'.cacheRange? p' = q.cacheRange? p'
  states : ∀ p', p' ≠ p → q'.state? p' = q.state? p'
  guards : ∀ p', p' ≠ p → q.hasEntries p' = true →
    q'.entryAt p' = q.entryAt p' ∧ q'.versionsAt p' = q.versionsAt p'

lemma Touches.cacheRange? (ht : Touches q q' p) (p' : Nat) :
    q'.cacheRange? p' = q.cacheRange? p' := by
  rw [cacheRange?_eq, cacheRange?_eq, ht.hasEntries]
  split
  · next hown =>
    by_cases hp : p' = p
    · subst hp
      rw [ht.base_eq hown]
    · rw [ht.instr p' hp]
  · rfl

lemma Touches.isolates (ht : Touches q q' p) (hq : q.Laid) : q.Isolates q' p where
  instrs p' hne := by
    by_cases hp : p' < q.instrs.size
    · rw [getElem?_instrs hp, getElem?_instrs (by rw [ht.size]; exact hp), ht.instr p' hne]
    · rw [Array.getElem?_eq_none (by rw [ht.size]; omega), Array.getElem?_eq_none (by omega)]
  words k hk := by
    have hget : q'.cache.getD k 0 = q.cache.getD k 0 := by
      refine ht.cache k fun hc => ?_
      obtain ⟨hown, hlo, hhi⟩ := hc
      exact hk _ (by rw [cacheRange?_eq, if_pos hown]) ⟨hlo, hhi⟩
    by_cases hlt : k < q.cache.size
    · have hlt' : k < q'.cache.size := by rw [ht.words]; exact hlt
      simpa [Array.getD_eq_getD_getElem?, hlt, hlt'] using hget
    · rw [Array.getElem?_eq_none (by rw [ht.words]; omega), Array.getElem?_eq_none (by omega)]
  ranges := ht.cacheRange?
  states p' hne := by
    rw [state?, state?, ht.instr p' hne, ht.counter hq hne]
  guards p' hne hown := ⟨ht.entryAt hq hne hown, ht.versionsAt hq hne hown⟩

/-! ### What a change is not about, it keeps -/

/-- Of the site at a position only the counter has changed. -/
structure Recounts (q q' : Quickened) (p : Nat) (n : UInt8) : Prop where
  counter : q'.counter p = n
  op : (q'.instrAt p).op = (q.instrAt p).op
  arg : q.hasEntries p = true → (q'.instrAt p).arg = (q.instrAt p).arg
  entry : q.hasEntries p = true → q'.entryAt p = { q.entryAt p with counter := n }
  versions : q.hasEntries p = true → q'.versionsAt p = q.versionsAt p

lemma setCounter_recounts (hq : q.Laid) (hf : (q.instrAt p).op.family? = some fam) (n : UInt8) :
    q.Recounts (q.setCounter p n) p n where
  counter := hq.counter_setCounter hf n
  op := op_setCounter q p n p
  arg := (setCounter_touches hf n).arg
  entry hown := hq.entryAt_setCounter hown n
  versions hown := versionsAt_setCounter hown n

lemma Recounts.trans {m n : UInt8} (a : q.Recounts q' p m) (b : q'.Recounts q'' p n) :
    q.Recounts q'' p n := by
  have hown : q'.hasEntries p = q.hasEntries p := by
    rw [hasEntries_eq, hasEntries_eq, a.op]
  refine ⟨b.counter, b.op.trans a.op, fun hp => ?_, fun hp => ?_, fun hp => ?_⟩
  · rw [b.arg (hown.trans hp), a.arg hp]
  · rw [b.entry (hown.trans hp), a.entry hp]
  · rw [b.versions (hown.trans hp), a.versions hp]

/-- The word of the site keeps the operand and the counter, whatever guard is written. -/
structure Reguards (q q' : Quickened) (p : Nat) : Prop where
  instr : q'.instrAt p = q.instrAt p
  counter : q'.counter p = q.counter p
  arg : q.hasEntries p = true → (q'.entryAt p).arg = (q.entryAt p).arg

lemma write_reguards (hq : q.Laid) (hf : (q.instrAt p).op.family? = some fam) {t : Attempt}
    (ht : t.Fits fam) : q.Reguards (q.write p t) p := by
  have hkept : (t.entry (q.entryAt p)).arg = (q.entryAt p).arg ∧
      (t.entry (q.entryAt p)).counter = (q.entryAt p).counter := by
    unfold Attempt.entry
    rcases t.guard with _ | g <;> exact ⟨rfl, rfl⟩
  refine ⟨instrAt_write q p t p, ?_, fun hown => ?_⟩
  · unfold counter
    rw [(write_fits_touches hf ht).own, instrAt_write]
    split
    · next hown => rw [hq.entryAt_write hown, hkept.2]
    · rfl
  · rw [hq.entryAt_write hown, hkept.1]

/-! ### Events are made of changes -/

/-- A stream that differs from another only within a site is known by what the site holds. -/
lemma Touches.ext_site (ha : Touches q a p) (hb : Touches q b p)
    (hi : a.instrAt p = b.instrAt p)
    (hw : q.hasEntries p = true → a.entryAt p = b.entryAt p ∧ a.versionsAt p = b.versionsAt p) :
    a = b := by
  have hinstrs : a.instrs = b.instrs := by
    refine instrs_eq_of_instrAt (ha.size.trans hb.size.symm) fun p' => ?_
    by_cases hp : p' = p
    · rw [hp, hi]
    · rw [ha.instr p' hp, hb.instr p' hp]
  have hcache : a.cache = b.cache := by
    have hget (k : Nat) : a.cache.getD k 0 = b.cache.getD k 0 := by
      by_cases hk : q.hasEntries p = true ∧ base p (q.instrAt p) ≤ k ∧
          k < base p (q.instrAt p) + 2
      · obtain ⟨hown, hlo, hhi⟩ := hk
        obtain ⟨hentry, hversions⟩ := hw hown
        -- a word is known by its fields
        have hfirst : a.word p 0 = b.word p 0 := by
          simpa [Quickened.entryAt] using congrArg Entry.pack hentry
        have hsecond : a.word p 1 = b.word p 1 := by
          simpa [Quickened.versionsAt] using congrArg VersionPair.pack hversions
        rw [Quickened.word, Quickened.word, ha.base_eq hown, hb.base_eq hown] at hfirst hsecond
        rcases (by omega : k = base p (q.instrAt p) + 0 ∨ k = base p (q.instrAt p) + 1) with
          rfl | rfl
        · exact hfirst
        · exact hsecond
      · rw [ha.cache k hk, hb.cache k hk]
    refine Array.ext (ha.words.trans hb.words.symm) fun k hk hk' => ?_
    simpa [Array.getD_eq_getD_getElem?, hk, hk'] using hget k
  cases a
  cases b
  cases hinstrs
  cases hcache
  rfl

lemma instrAt_setCounter (hf : (q.instrAt p).op.family? = some fam) (n : UInt8) :
    (q.setCounter p n).instrAt p =
      if q.hasEntries p then q.instrAt p else { q.instrAt p with arg := n } := by
  unfold setCounter
  split
  · rfl
  · exact instrAt_modify_self _ (lt_size_of_family hf)

lemma instrAt_setMember (hf : (q.instrAt p).op.family? = some fam) (op : QuickOp) :
    (q.setMember p op).instrAt p = { q.instrAt p with op } :=
  instrAt_modify_self _ (lt_size_of_family hf)

/-- The counter that is set last stays. -/
lemma setCounter_setCounter (hq : q.Laid) (hf : (q.instrAt p).op.family? = some fam)
    (m n : UInt8) : (q.setCounter p m).setCounter p n = q.setCounter p n := by
  have hm := setCounter_touches hf m
  have hf' : ((q.setCounter p m).instrAt p).op.family? = some fam := by rw [op_setCounter, hf]
  refine (hm.trans (setCounter_touches hf' n)).ext_site (setCounter_touches hf n) ?_ fun hown => ?_
  · rw [instrAt_setCounter hf', instrAt_setCounter hf, instrAt_setCounter hf, hm.own]
    split <;> rfl
  · have hown' : (q.setCounter p m).hasEntries p = true := hm.own.trans hown
    rw [(hm.laid hq).entryAt_setCounter hown', hq.entryAt_setCounter hown,
      hq.entryAt_setCounter hown, versionsAt_setCounter hown', versionsAt_setCounter hown,
      versionsAt_setCounter hown]
    exact ⟨rfl, rfl⟩

/-- Guards are written beside the counter. -/
lemma write_setCounter (hq : q.Laid) (hf : (q.instrAt p).op.family? = some fam) {t : Attempt}
    (ht : t.Fits fam) (n : UInt8) :
    (q.setCounter p n).write p t = (q.write p t).setCounter p n := by
  have hn := setCounter_touches hf n
  have hw := write_fits_touches hf ht
  have hf' : ((q.setCounter p n).instrAt p).op.family? = some fam := by rw [op_setCounter, hf]
  have hf'' : ((q.write p t).instrAt p).op.family? = some fam := by rw [instrAt_write, hf]
  refine (hn.trans (write_fits_touches hf' ht)).ext_site
    (hw.trans (setCounter_touches hf'' n)) ?_ fun hown => ?_
  · rw [instrAt_write, instrAt_setCounter hf, instrAt_setCounter hf'', hw.own, instrAt_write]
  · have hown' : (q.setCounter p n).hasEntries p = true := hn.own.trans hown
    have hown'' : (q.write p t).hasEntries p = true := hw.own.trans hown
    rw [(hn.laid hq).entryAt_write hown', hq.entryAt_setCounter hown,
      (hw.laid hq).entryAt_setCounter hown'', hq.entryAt_write hown,
      (hn.laid hq).versionsAt_write hown', versionsAt_setCounter hown,
      versionsAt_setCounter hown'', hq.versionsAt_write hown]
    refine ⟨?_, rfl⟩
    unfold Attempt.entry
    rcases t.guard with _ | g <;> rfl

/-- Members are put in place beside the counter. -/
lemma setMember_setCounter (hq : q.Laid) (hf : (q.instrAt p).op.family? = some fam) {op : QuickOp}
    (hop : op.family? = some fam) (n : UInt8) :
    (q.setCounter p n).setMember p op = (q.setMember p op).setCounter p n := by
  have hn := setCounter_touches hf n
  have hm := setMember_touches hf hop
  have hf' : ((q.setCounter p n).instrAt p).op.family? = some fam := by rw [op_setCounter, hf]
  have hf'' : ((q.setMember p op).instrAt p).op.family? = some fam := by rw [op_setMember hf, hop]
  refine (hn.trans (setMember_touches hf' hop)).ext_site (rewrite_touches hf hop n) ?_
    fun hown => ?_
  · rw [instrAt_setMember hf', instrAt_setCounter hf, instrAt_setCounter hf'',
      instrAt_setMember hf, hm.own]
    split <;> rfl
  · have hown' : (q.setMember p op).hasEntries p = true := hm.own.trans hown
    rw [entryAt_setMember, hq.entryAt_setCounter hown, (hm.laid hq).entryAt_setCounter hown',
      entryAt_setMember, versionsAt_setMember, versionsAt_setCounter hown,
      versionsAt_setCounter hown', versionsAt_setMember]
    exact ⟨rfl, rfl⟩

/-- **An execution makes the changes of its event**, one after the other. -/
theorem apply_eq_changes (hq : q.Laid) {cu : CodeUnit} {t : Trial}
    (hf : Machine.Finds h cu q p fam t) (c : Config) :
    q.apply p fam (t.event c (q.counter p)) =
        q.changes p fam (t.event c (q.counter p)).changes ∧
      ∀ x ∈ (t.event c (q.counter p)).changes, x.Suits h fam := by
  have hfam := hf.family
  cases t with
  | adaptive t =>
    obtain ⟨vs, ho⟩ := hf.offers
    have hwritten : ((q.write p t).instrAt p).op.family? = some fam := by rw [instrAt_write, hfam]
    have hlaid := (write_fits_touches hfam ho.fits).laid hq
    rcases Trial.event_adaptive_cases c (q.counter p) t with
      ⟨-, he⟩ | ⟨-, ⟨op, hv, he⟩ | ⟨reason, -, he⟩⟩
    · rw [he]
      exact ⟨rfl, by simp [SiteEvent.changes, SiteChange.Suits]⟩
    · rw [he]
      have hop := (ho.fits.member op hv).1
      refine ⟨?_, by simpa [SiteEvent.changes, SiteChange.Suits] using ⟨⟨vs, ho⟩, hop⟩⟩
      have hmember : (((q.write p t).setMember p op).instrAt p).op.family? = some fam := by
        rw [op_setMember hwritten, hop]
      simp only [apply, changes, SiteEvent.changes, List.foldl_cons, List.foldl_nil, change]
      rw [write_setCounter hq hfam ho.fits, setMember_setCounter hlaid hwritten hop,
        setCounter_setCounter ((setMember_touches hwritten hop).laid hlaid) hmember]
    · rw [he]
      refine ⟨?_, by simpa [SiteEvent.changes, SiteChange.Suits] using ⟨vs, ho⟩⟩
      simp only [apply, changes, SiteEvent.changes, List.foldl_cons, List.foldl_nil, change]
      rw [write_setCounter hq hfam ho.fits, setCounter_setCounter hlaid hwritten]
  | guarded holds =>
    rcases Trial.event_guarded_cases c (q.counter p) holds with ⟨-, he⟩ | ⟨-, -, he⟩ | ⟨-, -, he⟩
    all_goals
      rw [he]
      exact ⟨rfl, by simp [SiteEvent.changes, SiteChange.Suits]⟩

/-- A refused attempt that writes nothing leaves only a counter that starts over. -/
lemma refused_recounts (hq : q.Laid) (hf : (q.instrAt p).op.family? = some fam)
    (reason : Refusal) :
    q.Recounts (q.changes p fam [.tick, .attempt (.refuse reason), .reset]) p 0 := by
  have htick := setCounter_recounts hq hf (saturatingAdd (q.counter p) 1)
  have hreset := setCounter_recounts ((setCounter_touches hf _).laid hq)
    (show ((q.change p fam .tick).instrAt p).op.family? = some fam by
      rw [change, op_setCounter, hf]) 0
  exact htick.trans hreset

end Quickened

namespace Process

variable {p : Process} {k u i : Nat} {q : Quickened} {fam : Family} {t : Trial}

/-! ### Executions -/

/-- The units after a site has been executed: the event has happened there. -/
lemma attachmentAt_visited (hq : (p.world.attachmentAt u).quickened = some q) (u' : Nat) :
    (p.visited k u i fam t).world.attachmentAt u' =
      if u = u' then
        { p.world.attachmentAt u with
          quickened := some (q.apply i fam (t.event (p.vmAt k).config (q.counter i))) }
      else p.world.attachmentAt u' := by
  have hcounter : Machine.counterAt p.world.attachments u i = q.counter i := by
    rw [Machine.counterAt, show (p.world.attachments.getD u default).quickened = _ from hq]
  show (Machine.visit p.world.attachments (p.vmAt k) u i fam t).1.getD u' default = _
  dsimp only [Machine.visit]
  rw [getD_modify, hcounter]
  by_cases hne : u = u'
  · subst hne
    rw [if_pos ⟨rfl, lt_size_of_quickened hq⟩, if_pos rfl, Attachment.apply, ← World.attachmentAt,
      hq]
    rfl
  · rw [if_neg fun hc => hne hc.1, if_neg hne]
    rfl

lemma quickened_visited (hq : (p.world.attachmentAt u).quickened = some q) (u' : Nat) :
    ((p.visited k u i fam t).world.attachmentAt u').quickened =
      if u = u' then some (q.apply i fam (t.event (p.vmAt k).config (q.counter i)))
      else (p.world.attachmentAt u').quickened := by
  rw [attachmentAt_visited hq]
  split <;> rfl

/-- Quickening cannot touch a stream that is there. -/
lemma Streams.keeps {p' : Process} (hs : Streams p p')
    (hq : (p.world.attachmentAt u).quickened = some q) :
    (p'.world.attachmentAt u).quickened = some q := by
  rcases hs u with hsame | ⟨hnone, -⟩
  · rw [hsame, hq]
  · rw [hq] at hnone
    cases hnone

/-- **What an action does to a stream**: nothing, unless it executes one of its sites, and then
there is one event at that site, which the interpreter counts. -/
theorem perform_stream (hp : p.world.Sound) (a : Action)
    (hq : (p.world.attachmentAt u).quickened = some q) :
    ((∀ w, p.visit? a = some w → w.unit ≠ u) ∧
        ((p.perform a).world.attachmentAt u).quickened = some q) ∨
      ∃ k i fam t, p.execution? a = some ⟨k, u, some fam⟩ ∧
        Machine.Finds p.world.heap (p.world.heap.unitAt u) q i fam t ∧
        p.visit? a = some ⟨k, u, i, (t.event (p.vmAt k).config (q.counter i)).outcome⟩ ∧
        ((p.perform a).world.attachmentAt u).quickened =
          some (q.apply i fam (t.event (p.vmAt k).config (q.counter i))) ∧
        ((p.perform a).vmAt k).stats.family fam =
          ((p.vmAt k).stats.family fam).record (t.event (p.vmAt k).config (q.counter i)) := by
  rcases perform_visits hp a with
    ⟨hnone, hs⟩ | ⟨k, u', i, q', fam, t, he, -, hq', hf, hvisit, hs, hstats⟩
  · refine .inl ⟨fun w hw => ?_, hs.keeps hq⟩
    rw [hnone] at hw
    cases hw
  · have hafter : ((p.visited k u' i fam t).world.attachmentAt u).quickened = _ :=
      quickened_visited hq' u
    by_cases hu : u' = u
    · subst hu
      obtain rfl : q' = q := Option.some.inj (hq'.symm.trans hq)
      rw [if_pos rfl] at hafter
      exact .inr ⟨k, i, fam, t, he, hf, hvisit, hs.keeps hafter, hstats⟩
    · rw [if_neg hu, hq] at hafter
      refine .inl ⟨fun w hw => ?_, hs.keeps hafter⟩
      rw [hvisit] at hw
      cases hw
      exact hu

/-- **Sites are isolated**: no sequence of changes at a site, and no execution of it, reaches beyond
its instruction and its range of words; and at the site itself each kind of change leaves alone what
it is not about. -/
theorem sites_isolated (as : List Action) (u i : Nat) (q : Quickened) (fam : Family)
    (hq : ((({} : Process).after as).world.attachmentAt u).quickened = some q)
    (hfam : (q.instrAt i).op.family? = some fam) :
    let p := ({} : Process).after as
    let h := p.world.heap
    (∀ cs, (∀ c ∈ cs, c.Suits h fam) → q.Isolates (q.changes i fam cs) i) ∧
    (∀ a w, p.visit? a = some w → w.unit = u → w.position = i →
      ∃ ev : SiteEvent, w.outcome = ev.outcome ∧ (∀ c ∈ ev.changes, c.Suits h fam) ∧
        ((p.perform a).world.attachmentAt u).quickened = some (q.changes i fam ev.changes)) ∧
    (∀ n, q.Recounts (q.setCounter i n) i n) ∧
    (∀ op, op.family? = some fam →
      (q.setMember i op).instrAt i = { q.instrAt i with op } ∧ (q.setMember i op).cache = q.cache) ∧
    (∀ vs t, Specialize.Offers h fam vs t → q.Reguards (q.write i t) i) ∧
    ∀ vs t reason, Specialize.Offers h fam vs t → h.tokens.Lasting →
      (∀ o, Value.inst o ∈ vs → 0 < h.shapes.size) → t.verdict = .error reason →
        q.Recounts (q.changes i fam [.tick, .attempt t, .reset]) i 0 := by
  intro p h
  have hw : p.world.Sound := after_sound World.sound_empty as
  have hlaid : q.Laid := (hw.streams u q hq).erases.laid
  have hstamped : h.Stamped := Heap.Stamped.empty.becomes (after_becomes {} as)
  refine ⟨fun cs hcs => ?_, fun a w hvisit hu hi => ?_, fun n => ?_, fun op hop => ?_,
    fun vs t ho => ?_, fun vs t reason ho hlast hpos hv => ?_⟩
  · exact (Quickened.changes_touches hfam hcs).isolates hlaid
  · rcases perform_stream hw a hq with ⟨hother, -⟩ | ⟨k, i', fam', t, -, hf, hvisit', hafter, -⟩
    · exact absurd hu (hother w hvisit)
    · cases hvisit.symm.trans hvisit'
      obtain rfl : i' = i := hi
      obtain rfl : fam' = fam := Option.some.inj (hf.family.symm.trans hfam)
      obtain ⟨heq, hsuit⟩ := Quickened.apply_eq_changes hlaid hf (p.vmAt k).config
      exact ⟨_, rfl, hsuit, by rw [hafter, heq]⟩
  · exact Quickened.setCounter_recounts hlaid hfam n
  · exact ⟨Quickened.instrAt_setMember hfam op, rfl⟩
  · exact Quickened.write_reguards hlaid hfam ho.fits
  · have hrefused : t = .refuse reason :=
      ho.eq_refuse (fun o ho => hstamped.shapeOf hw.heap.shaped (hpos o ho) (hlast .shapes) o) hv
    rw [hrefused]
    exact Quickened.refused_recounts hlaid hfam reason

/-- Beside the site that reads the instance, the one that reads an attribute of its class falls back
and is refused another one. -/
theorem sites_isolated_class_attribute :
    let h := (({} : Process).after readsClassAttribute).world.heap
    let t := Specialize.loadAttr h (.inst ⟨0, "C"⟩) "missing"
    ∃ q, ((({} : Process).after readsClassAttribute).world.attachmentAt 0).quickened = some q ∧
      (q.instrAt 1).op.family? = some .loadAttr ∧ t.verdict = .error .notFound ∧
      q.Isolates (q.changes 1 .loadAttr [.deoptimize, .tick, .attempt t, .reset]) 1 ∧
      q.Recounts (q.changes 1 .loadAttr [.tick, .attempt t, .reset]) 1 0 := by
  intro h t
  have hrun : ((({} : Process).after readsClassAttribute).world.attachmentAt 0).quickened.map
      (fun q => (q.instrAt 1).op.family?) = some (some .loadAttr) := by decide +kernel
  have hverdict : t.verdict = .error .notFound := by decide +kernel
  have hshapes : 0 < h.shapes.size := by decide +kernel
  have hlast : h.tokens.Lasting := by
    intro k
    cases k <;> decide +kernel
  obtain ⟨q, hq, hfam⟩ := Option.map_eq_some_iff.mp hrun
  have ho : Specialize.Offers h .loadAttr [.inst ⟨0, "C"⟩] t := .loadAttr _ _
  obtain ⟨hisolated, -, -, -, -, hrefused⟩ :=
    sites_isolated readsClassAttribute 0 1 q .loadAttr hq hfam
  refine ⟨q, hq, hfam, hverdict, hisolated _ ?_, hrefused _ t .notFound ho hlast ?_ hverdict⟩
  · simpa [SiteChange.Suits] using ⟨_, ho⟩
  · exact fun _ _ => hshapes

end Process

end AdaptiveVM
