import AdaptiveVM.Proofs.Sightings

/-!
Calls of one function.

Where a call site always calls the same function, the only member that it can specialize to is the
one for that function, and as long as the function is there the guard of that member holds. Such a
site never misses, so it never falls back, however often it is executed and whatever frames execute
it.
-/

namespace AdaptiveVM

namespace Quickened

variable {q : Quickened} {h : Heap} {r : Ref .function} {p : Nat} {fam : Family} {ev : SiteEvent}
  {member : CallMember}

/-- The guards of all call sites that are specialized hold of a function. -/
def CallGuardsHold (q : Quickened) (h : Heap) (r : Ref .function) : Prop :=
  ∀ p member, (q.instrAt p).op = .call member → member ≠ .adaptive →
    (member.probe (q.entryAt p) h (.function r)).isSome

lemma callGuardsHold_ofCode (code : Array Instr) : (ofCode code).CallGuardsHold h r := by
  intro p member hop hne
  have hadaptive := isAdaptive_ofCode (i := p) (by rw [hop]; rfl)
  rw [hop] at hadaptive
  cases member with
  | adaptive => exact absurd rfl hne
  | functionExact => cases hadaptive
  | builtin => cases hadaptive

lemma hasEntries_of_call (hop : (q.instrAt p).op = .call member) : q.hasEntries p = true := by
  rw [hasEntries, hop]
  rfl

lemma CallGuardsHold.elsewhere (hq : q.CallGuardsHold h r) (hlaid : q.Laid) {q' : Quickened}
    (ht : Touches q q' p)
    (hp : ∀ member, (q'.instrAt p).op = .call member → member ≠ .adaptive →
      (member.probe (q'.entryAt p) h (.function r)).isSome) : q'.CallGuardsHold h r := by
  intro p' member hop hne
  by_cases hpp : p' = p
  · subst hpp
    exact hp member hop hne
  · have hown : q.hasEntries p' = true := by
      rw [← ht.hasEntries]
      exact hasEntries_of_call hop
    rw [ht.instr p' hpp] at hop
    rw [ht.entryAt hlaid hpp hown]
    exact hq p' member hop hne

lemma CallGuardsHold.apply_other (hq : q.CallGuardsHold h r) (hlaid : q.Laid)
    (hfam : (q.instrAt p).op.family? = some fam) (hev : ev.Fits fam) (hne : fam ≠ .call) :
    (q.apply p fam ev).CallGuardsHold h r := by
  refine hq.elsewhere hlaid (apply_touches hfam hev) fun member hop _ => ?_
  have hkept := hev.member _ hfam
  rw [← op_apply hfam, hop] at hkept
  exact absurd (Option.some.inj hkept).symm hne

/-- What an execution of a call site comes to, by the value that is called. -/
def callTrial (q : Quickened) (p : Nat) (h : Heap) (callee : Value) (member : CallMember) : Trial :=
  member.trial (member.probe (q.entryAt p) h callee).isSome
    (Specialize.call h callee (q.entryAt p).arg)

lemma fits_callTrial (q : Quickened) (p : Nat) (h : Heap) (callee : Value)
    (hop : (q.instrAt p).op = .call member) :
    (q.callTrial p h callee member).Fits (q.instrAt p).op .call := by
  rw [hop]
  exact Trial.call_fits _ _ (Specialize.call_fits ..)

/-- An execution that calls the function counts, specializes, is refused or hits. -/
lemma CallGuardsHold.event_cases (hq : q.CallGuardsHold h r)
    (hop : (q.instrAt p).op = .call member) (c : Config) (n : UInt8) :
    (member = .adaptive ∧ ∃ k, (q.callTrial p h (.function r) member).event c n = .counted k) ∨
    (member = .adaptive ∧ ∃ reason attempt,
      (q.callTrial p h (.function r) member).event c n = .refused reason attempt) ∨
    ((h.functionAt r).version ≠ 0 ∧
      (h.unitAt (h.functionAt r).unit).argcount = (q.entryAt p).arg ∧
      (q.callTrial p h (.function r) member).event c n = .specialized (.call .functionExact)
        { guard := some ⟨0, (h.functionAt r).version⟩, verdict := .ok (.call .functionExact) }
        c.policy.initial) ∨
    (member ≠ .adaptive ∧ ∃ k, (q.callTrial p h (.function r) member).event c n = .hit k) := by
  by_cases hm : member = .adaptive
  · have htrial : q.callTrial p h (.function r) member =
        .adaptive (Specialize.call h (.function r) (q.entryAt p).arg) := if_pos hm
    rw [htrial]
    rcases Trial.event_adaptive_cases c n (Specialize.call h (.function r) (q.entryAt p).arg) with
      ⟨-, he⟩ | ⟨-, ⟨op, hok, he⟩ | ⟨reason, -, he⟩⟩
    · exact .inl ⟨hm, _, he⟩
    · refine .inr (.inr (.inl ?_))
      rcases Specialize.call_cases h (.function r) (q.entryAt p).arg with
        ⟨reason, hcall⟩ | ⟨f, hf, hversion, hargs, hcall⟩ | ⟨b, hb, -⟩
      · rw [hcall] at hok
        cases hok
      · cases hf
        rw [hcall] at hok he
        cases hok
        exact ⟨hversion, hargs, hcall ▸ he⟩
      · cases hb
    · exact .inr (.inl ⟨hm, _, _, he⟩)
  · have htrial : q.callTrial p h (.function r) member =
        .guarded (member.probe (q.entryAt p) h (.function r)).isSome := if_neg hm
    rw [htrial, hq p member hop hm]
    exact .inr (.inr (.inr ⟨hm, _, rfl⟩))

lemma probe_counter (member : CallMember) (e : Entry) (n : UInt8) (h : Heap) (callee : Value) :
    member.probe { e with counter := n } h callee = member.probe e h callee := by
  cases member <;> cases callee <;> rfl

lemma CallGuardsHold.apply_call (hq : q.CallGuardsHold h r) (hlaid : q.Laid)
    (hop : (q.instrAt p).op = .call member) (c : Config) (n : UInt8) :
    (q.apply p .call ((q.callTrial p h (.function r) member).event c n)).CallGuardsHold h r := by
  have hfam : (q.instrAt p).op.family? = some .call := by rw [hop]; rfl
  have hev : ((q.callTrial p h (.function r) member).event c n).Fits .call :=
    Trial.event_fits (q.fits_callTrial p h (.function r) hop)
  have hentry := entryAt_apply hlaid hfam hev (hasEntries_of_call hop)
  have hnow :
      ((q.apply p .call ((q.callTrial p h (.function r) member).event c n)).instrAt p).op = _ :=
    op_apply hfam
  refine hq.elsewhere hlaid (apply_touches hfam hev) fun member' hop' hne => ?_
  rw [hop', hop] at hnow
  rw [hentry, probe_counter]
  rcases hq.event_cases hop c n with
    ⟨rfl, k, he⟩ | ⟨rfl, reason, attempt, he⟩ | ⟨hversion, hargs, he⟩ | ⟨hm, k, he⟩
  · rw [he] at hnow
    cases hnow
    exact absurd rfl hne
  · rw [he] at hnow
    cases hnow
    exact absurd rfl hne
  · rw [he] at hnow ⊢
    cases hnow
    exact Option.isSome_iff_exists.mpr ⟨_, if_pos ⟨hversion, rfl, hargs⟩⟩
  · rw [he] at hnow ⊢
    cases hnow
    exact hq p member hop hm

lemma CallGuardsHold.record_call (hq : q.CallGuardsHold h r)
    (hop : (q.instrAt p).op = .call member) (c : Config) (n : UInt8) (s : FamilyStats) :
    (s.record ((q.callTrial p h (.function r) member).event c n)).miss = s.miss ∧
      (s.record ((q.callTrial p h (.function r) member).event c n)).deopt = s.deopt := by
  rcases hq.event_cases hop c n with
    ⟨-, k, he⟩ | ⟨-, reason, attempt, he⟩ | ⟨-, -, he⟩ | ⟨-, k, he⟩
  · rw [he]
    exact ⟨rfl, rfl⟩
  · rw [he]
    exact ⟨rfl, rfl⟩
  · rw [he]
    exact ⟨rfl, rfl⟩
  · rw [he]
    exact ⟨rfl, rfl⟩

end Quickened

namespace Machine

variable {m : Machine} {f : Frame} {q : Quickened} {t : Trial} {us : List Nat}
  {r : Ref .function} {h : Heap} {a : Array Attachment} {vm : Vm}

/-- At a call site the trial is that of the value which is called. -/
lemma Visits.call (hv : m.Visits f q .call t) {callee : Value}
    (hpop : ∀ i, (m.heap.unitAt f.unit).instr? f.position = some i → i.op = .call →
      ∃ args below, f.popMany? i.arg.toNat = some (args, callee :: below)) :
    ∃ member, (q.instrAt f.position).op = .call member ∧
      t = q.callTrial f.position m.heap callee member := by
  obtain ⟨i, s, hi, hsight, hfaces⟩ := hv.faces
  cases hfaces with
  | call seen op =>
    obtain ⟨hcall, args, below, hstack⟩ := Frame.popMany?_of_sight? hsight
    obtain ⟨args', below', hstack'⟩ := hpop i hi hcall
    cases hstack.symm.trans hstack'
    exact ⟨_, op, rfl⟩

/-- The units have call sites for one function alone, and no call has missed. -/
structure Steady (us : List Nat) (h : Heap) (r : Ref .function) (a : Array Attachment) (vm : Vm) :
    Prop where
  guards : ∀ u ∈ us, ∀ q, (a.getD u default).quickened = some q → q.CallGuardsHold h r
  miss : (vm.stats.family .call).miss = 0
  deopt : (vm.stats.family .call).deopt = 0

lemma Steady.quiet (hs : Steady us h r a vm) (hq : Quiet h a vm m) :
    Steady us h r m.attachments m.vm where
  guards u hu q hq' := by
    rcases hq.warmed.quickened u with hsame | ⟨-, hnew⟩
    · exact hs.guards u hu q (hsame.symm.trans hq')
    · cases hnew.symm.trans hq'
      exact Quickened.callGuardsHold_ofCode _
  miss := by
    rw [hq.vm.counts]
    exact hs.miss
  deopt := by
    rw [hq.vm.counts]
    exact hs.deopt

lemma Steady.visit {u p : Nat} {fam : Family} (hs : Steady us h r a vm)
    (hq : (a.getD u default).quickened = some q)
    (hguards : ∀ c n, q.CallGuardsHold h r → (q.apply p fam (t.event c n)).CallGuardsHold h r)
    (hrecord : fam = .call → ∀ c n s, (FamilyStats.record s (t.event c n)).miss = s.miss ∧
      (FamilyStats.record s (t.event c n)).deopt = s.deopt) :
    Steady us h r (Machine.visit a vm u p fam t).1 (Machine.visit a vm u p fam t).2 := by
  refine ⟨fun u' hu' q' hq' => ?_, ?_, ?_⟩
  · change ((a.modify u _).getD u' default).quickened = some q' at hq'
    rw [getD_modify] at hq'
    split at hq'
    · next hc =>
      obtain ⟨rfl, -⟩ := hc
      change (a.getD u default).quickened.map _ = some q' at hq'
      rw [hq] at hq'
      cases hq'
      exact hguards _ _ (hs.guards u hu' q hq)
    · exact hs.guards u' hu' q' hq'
  · show ((vm.stats.record fam _).family .call).miss = 0
    rw [Stats.family_record]
    split
    · next hfam => rw [(hrecord hfam.symm _ _ _).1, hs.miss]
    · exact hs.miss
  · show ((vm.stats.record fam _).family .call).deopt = 0
    rw [Stats.family_record]
    split
    · next hfam => rw [(hrecord hfam.symm _ _ _).2, hs.deopt]
    · exact hs.deopt

/-- The machine executes one of some units, and if the next step is a call, it calls a function. -/
def CallsOnly (us : List Nat) (r : Ref .function) (m : Machine) : Prop :=
  ∀ f, m.frames.head? = some f → f.unit ∈ us ∧
    ∀ i, (m.heap.unitAt f.unit).instr? f.position = some i → i.op = .call →
      ∃ args below, f.popMany? i.arg.toNat = some (args, .function r :: below)

/-- **Steady calls do not miss.** -/
theorem Steady.step (hw : World.Sound ⟨m.heap, m.attachments⟩)
    (hs : Steady us m.heap r m.attachments m.vm) (hc : m.CallsOnly us r) :
    Steady us m.heap r m.step.machine.attachments m.step.machine.vm := by
  rcases m.step_cases hw with ⟨-, hquiet⟩ | ⟨f, q, fam, t, hvisit⟩
  · exact hs.quiet hquiet
  · obtain ⟨hu, hcall⟩ := hc f hvisit.frame
    have hlaid := (hw.streams f.unit q hvisit.stream).erases.laid
    have hguards := hs.guards f.unit hu q hvisit.stream
    by_cases hfam : fam = .call
    · subst hfam
      obtain ⟨member, hop, rfl⟩ := hvisit.call hcall
      exact (hs.visit hvisit.stream (fun c n hq => hq.apply_call hlaid hop c n)
        fun _ c n s => hguards.record_call hop c n s).quiet hvisit.quiet
    · refine (hs.visit hvisit.stream (fun c n hq => ?_) fun hcall => ?_).quiet hvisit.quiet
      · exact hq.apply_other hlaid hvisit.finds.family (Trial.event_fits hvisit.finds.fits) hfam
      · exact absurd hcall hfam

end Machine

end AdaptiveVM
