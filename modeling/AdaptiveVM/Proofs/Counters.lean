import AdaptiveVM.Proofs.Ledger

/-!
Counters stay between their bounds.

One byte of a site is two things in turn: while the site is adaptive it counts executions, and while
the site is specialized it rises with hits and falls with misses. Every change of state resets it to
where the next state begins. So among the units that only one interpreter executes, the byte of an
adaptive site is the number of its executions since it last changed, and the byte of a specialized
site is above the lower bound, at which it would have fallen back.
-/

namespace AdaptiveVM

/-! ### The policy -/

/-- What a valid configuration asks of the counters. -/
lemma Config.bounds_of_valid {c : Config} (h : c.fault? = none) :
    c.counterMin < c.counterInitial ∧ c.counterInitial ≤ c.counterMax := by
  unfold Config.fault? at h
  by_cases hlow : c.specializeThreshold < 2
  · simp [hlow] at h
  by_cases hmin : c.counterInitial ≤ c.counterMin
  · simp [hlow, hmin] at h
  by_cases hmax : c.counterMax < c.counterInitial
  · simp [hlow, hmin, hmax] at h
  exact ⟨UInt8.not_le.mp hmin, UInt8.not_lt.mp hmax⟩

lemma Config.fault?_tuning (c : Config) : c.tuning.fault? = c.fault? := rfl

lemma le_saturatingAdd (a b : UInt8) : a ≤ saturatingAdd a b := by
  unfold saturatingAdd
  split
  · exact UInt8.le_iff_toNat_le.mpr (Nat.le_of_lt_succ a.toNat_lt)
  · next hsum =>
    rw [UInt8.le_iff_toNat_le, UInt8.toNat_add]
    omega

lemma clamp_le {a low high : UInt8} (h : low ≤ high) : clamp a low high ≤ high := by
  unfold clamp
  split
  · exact h
  · split
    · exact UInt8.le_refl _
    · next hle => exact UInt8.not_lt.mp hle

lemma le_clamp {a low high : UInt8} (h : low ≤ high) : low ≤ clamp a low high := by
  unfold clamp
  split
  · exact UInt8.le_refl _
  · next hle =>
    split
    · exact h
    · exact UInt8.not_lt.mp hle

/-- Clamping keeps what is above the lower bound above it. -/
lemma lt_clamp {a low high : UInt8} (ha : low < a) (h : low < high) : low < clamp a low high := by
  unfold clamp
  rw [if_neg (UInt8.not_lt.mpr (UInt8.le_of_lt ha))]
  split
  · exact h
  · exact ha

namespace Policy

variable {p : Policy} {n : UInt8}

lemma hit_bounds (h : p.min < p.max) (hn : p.min < n) : p.min < p.hit n ∧ p.hit n ≤ p.max :=
  ⟨lt_clamp (UInt8.lt_of_lt_of_le hn (le_saturatingAdd n _)) h, clamp_le (UInt8.le_of_lt h)⟩

/-- After a miss the counter is at its lower bound, where the site falls back, or above. -/
lemma miss_bounds (h : p.min < p.max) (hf : p.falls (p.miss n) = false) :
    p.min < p.miss n ∧ p.miss n ≤ p.max := by
  have hle : p.min ≤ p.miss n := le_clamp (UInt8.le_of_lt h)
  have hne : p.miss n ≠ p.min := by simpa [falls] using hf
  exact ⟨UInt8.lt_of_le_of_ne hle (Ne.symm hne), clamp_le (UInt8.le_of_lt h)⟩

end Policy

/-- The counter may stand at a site with the given member. -/
structure Config.Admits (c : Config) (op : QuickOp) (n : UInt8) : Prop where
  adaptive : op.isAdaptive = true → n < c.specializeThreshold
  specialized : op.family?.isSome = true → op.isAdaptive = false →
    c.counterMin < n ∧ n ≤ c.counterMax

section Event

variable {c : Config} {t : Trial} {op : QuickOp} {fam : Family} {n : UInt8}

/-- **One execution** leaves a counter that may stand at the site it leaves. -/
theorem Trial.event_admitted (hvalid : c.fault? = none) (hop : op.family? = some fam)
    (hfit : t.Fits op fam) (hn : c.Admits op n) :
    c.Admits ((t.event c n).member fam op) (t.event c n).counter := by
  obtain ⟨hmin, hmax⟩ := c.bounds_of_valid hvalid
  have hrange : c.policy.min < c.policy.max := UInt8.lt_of_lt_of_le hmin hmax
  refine ⟨event_low hfit (c.specializeThreshold_pos hvalid), fun hsome ha => ?_⟩
  cases t with
  | adaptive attempt =>
    rcases event_adaptive_cases c n attempt with
      ⟨-, he⟩ | ⟨-, ⟨op', hv, he⟩ | ⟨reason, -, he⟩⟩
    · rw [he] at ha
      exact absurd (hfit.1.symm.trans ha) (by decide)
    · rw [he]
      exact ⟨hmin, hmax⟩
    · rw [he] at ha
      exact absurd (hfit.1.symm.trans ha) (by decide)
  | guarded holds =>
    have hold : c.policy.min < n := (hn.specialized (by rw [hop]; rfl) hfit).1
    rcases event_guarded_cases c n holds with ⟨-, he⟩ | ⟨-, hf, he⟩ | ⟨-, -, he⟩
    · rw [he]
      exact Policy.hit_bounds hrange hold
    · rw [he]
      exact Policy.miss_bounds hrange hf
    · rw [he] at ha
      exact absurd ((Quickened.isAdaptive_adaptive fam).symm.trans ha) (by decide)

end Event

/-! ### Executions of a site -/

/-- What an execution of a site comes to, as far as the counts of its family tell. -/
inductive Outcome where
  /-- One more execution of the adaptive member, and no attempt. -/
  | counted
  | specialized
  | refused
  /-- The guard was tried, and the site stays specialized. -/
  | guarded
  | fellBack
  deriving DecidableEq

namespace Outcome

/-- From the counts before and after. -/
def between (s s' : FamilyStats) : Outcome :=
  if s.success < s'.success then .specialized
  else if s.failure < s'.failure then .refused
  else if s.deopt < s'.deopt then .fellBack
  else if s.adaptive < s'.adaptive then .counted
  else .guarded

/-- How many executions have been waited for after one more. -/
def next (n : Nat) : Outcome → Nat
  | .counted => n + 1
  | .guarded => n
  | .specialized | .refused | .fellBack => 0

end Outcome

def SiteEvent.outcome : SiteEvent → Outcome
  | .counted _ => .counted
  | .specialized .. => .specialized
  | .refused .. => .refused
  | .hit _ | .missed _ => .guarded
  | .fellBack => .fellBack

lemma Outcome.between_record (s : FamilyStats) (ev : SiteEvent) :
    between s (s.record ev) = ev.outcome := by
  cases ev <;> simp [between, FamilyStats.record, SiteEvent.outcome]

/-- One execution of a site of a quickened stream, by the place of the interpreter. -/
structure Visit where
  vm : Nat
  unit : Nat
  position : Nat
  outcome : Outcome
  deriving DecidableEq

namespace Visit

def tick (u position n : Nat) (w : Visit) : Nat :=
  if w.unit = u ∧ w.position = position then w.outcome.next n else n

/-- The executions of a site since it last changed: since it was quickened, or an attempt of it was
refused, or it was specialized or fell back. -/
def waited (u position : Nat) (ws : List Visit) : Nat := ws.foldl (tick u position) 0

lemma waited_append (u position : Nat) (ws : List Visit) (w : Visit) :
    waited u position (ws ++ [w]) = tick u position (waited u position ws) w := by
  rw [waited, List.foldl_append]
  rfl

lemma waited_of_absent {u : Nat} (position : Nat) {ws : List Visit} (h : ∀ w ∈ ws, w.unit ≠ u) :
    waited u position ws = 0 := by
  induction ws using List.reverseRecOn with
  | nil => rfl
  | append_singleton ws w ih =>
    rw [waited_append, tick, if_neg fun hc => h w (by simp) hc.1,
      ih fun w' hw' => h w' (List.mem_append_left _ hw')]

end Visit

section Event

variable {c : Config} {t : Trial} {op : QuickOp} {fam : Family} {n : UInt8} {waited : Nat}

/-- An adaptive site counts its executions. -/
lemma Trial.event_counts (hfit : t.Fits op fam)
    (hlow : op.isAdaptive = true → n < c.specializeThreshold)
    (hwait : op.isAdaptive = true → n.toNat = waited)
    (ha : ((t.event c n).member fam op).isAdaptive = true) :
    (t.event c n).counter.toNat = (t.event c n).outcome.next waited := by
  cases t with
  | adaptive attempt =>
    rcases event_adaptive_cases c n attempt with
      ⟨-, he⟩ | ⟨-, ⟨op', hv, he⟩ | ⟨reason, -, he⟩⟩
    · rw [he]
      show (saturatingAdd n 1).toNat = waited + 1
      rw [toNat_saturatingAdd_one (hlow hfit.1), hwait hfit.1]
    · rw [he] at ha
      exact absurd (ha.symm.trans (hfit.2.member op' hv).2) (by decide)
    · rw [he]
      rfl
  | guarded holds =>
    rcases event_guarded_cases c n holds with ⟨-, he⟩ | ⟨-, -, he⟩ | ⟨-, -, he⟩
    · rw [he] at ha
      exact absurd (ha.symm.trans hfit) (by decide)
    · rw [he] at ha
      exact absurd (ha.symm.trans hfit) (by decide)
    · rw [he]
      rfl

end Event

namespace Process

variable {p p' : Process} {v : Nat}

/-! ### What an action executes -/

/-- The site that an action executes. -/
def visit? (p : Process) : Action → Option Visit
  | .step =>
    match p.runs, p.machine? with
    | r :: _, some m => m.frames.head?.bind fun f => m.site?.map fun fam =>
        ⟨r.vm, f.unit, f.position,
          .between ((p.vmAt r.vm).stats.family fam)
            (((p.perform .step).vmAt r.vm).stats.family fam)⟩
    | _, _ => none
  | _ => none

/-- All executions of sites along some actions. -/
def visits (p : Process) : List Action → List Visit
  | [] => []
  | a :: as => (p.visit? a).toList ++ (p.perform a).visits as

/-- Streams have come from one process to the other by quickening alone. -/
def Streams (p p' : Process) : Prop :=
  ∀ u, (p'.world.attachmentAt u).quickened = (p.world.attachmentAt u).quickened ∨
    (p.world.attachmentAt u).quickened = none ∧
      ∃ code, (p'.world.attachmentAt u).quickened = some (.ofCode code)

lemma visit?_of_unsited {a : Action} (h : ∀ e, p.execution? a = some e → e.site = none) :
    p.visit? a = none := by
  cases a with
  | step =>
    unfold visit?
    rcases hruns : p.runs with _ | ⟨r, rest⟩
    · rfl
    rcases hm : p.machine? with _ | m
    · rfl
    rcases hf : m.frames.head? with _ | f
    · simp only [hf, Option.bind_none]
    · have hsite := h ⟨r.vm, f.unit, m.site?⟩
        (by simp only [execution?, hruns, hm, hf, Option.map_some])
      simp only at hsite
      simp only [hf, hsite, Option.bind_some, Option.map_none]
  | _ => rfl

/-- The step of a process executes a site: the event that the counter decides happens there, and the
interpreter counts it. -/
lemma step_of_visits {r : Run} {rest : List Run} {x : Vm} {f : Frame} {q : Quickened}
    {fam : Family} {t : Trial} (hruns : p.runs = r :: rest) (hx : p.vms[r.vm]? = some x)
    (hvisit : Machine.Visits ⟨p.world.heap, p.world.attachments, x, r.frames⟩ f q fam t) :
    p.execution? .step = some ⟨r.vm, f.unit, some fam⟩ ∧
      p.visit? .step = some ⟨r.vm, f.unit, f.position,
        (t.event (p.vmAt r.vm).config (q.counter f.position)).outcome⟩ ∧
      Streams (p.visited r.vm f.unit f.position fam t) (p.perform .step) ∧
      ((p.perform .step).vmAt r.vm).stats.family fam =
        ((p.vmAt r.vm).stats.family fam).record
          (t.event (p.vmAt r.vm).config (q.counter f.position)) := by
  have hk : r.vm < p.vms.size := (Array.getElem?_eq_some_iff.mp hx).1
  have hcounter : Machine.counterAt p.world.attachments f.unit f.position =
      q.counter f.position := by
    rw [Machine.counterAt, hvisit.stream]
  -- the counts change by the event, and by nothing since
  have hafter : ((p.perform .step).vmAt r.vm).stats.family fam =
      ((p.vmAt r.vm).stats.family fam).record
        (t.event (p.vmAt r.vm).config (q.counter f.position)) := by
    rw [perform_step hruns hx, vmAt_settle, if_pos ⟨rfl, hk⟩, hvisit.quiet.vm.counts,
      vmAt_of_getElem? hx, ← hcounter]
    exact (Stats.family_record ..).trans (if_pos rfl)
  refine ⟨?_, ?_, ?_, hafter⟩
  · simp only [execution?, machine?, hruns, hx, Option.map_some]
    rw [hvisit.frame, Option.map_some, hvisit.site]
  · simp only [visit?, machine?, hruns, hx, Option.map_some, hvisit.frame, Option.bind_some,
      hvisit.site]
    rw [hafter, Outcome.between_record]
  · rw [perform_step hruns hx]
    exact (settle_visited_calm hx hvisit.quiet rest 0).quickened

/-- **What an action executes**: nothing, or one site, with the event that its counter decides and
that the interpreter counts. -/
theorem perform_visits (hp : p.world.Sound) (a : Action) :
    (p.visit? a = none ∧ Streams p (p.perform a)) ∨
      ∃ k u position q fam t, p.execution? a = some ⟨k, u, some fam⟩ ∧ k < p.vms.size ∧
        (p.world.attachmentAt u).quickened = some q ∧
        Machine.Finds p.world.heap (p.world.heap.unitAt u) q position fam t ∧
        p.visit? a = some ⟨k, u, position,
          (t.event (p.vmAt k).config (q.counter position)).outcome⟩ ∧
        Streams (p.visited k u position fam t) (p.perform a) ∧
        ((p.perform a).vmAt k).stats.family fam =
          ((p.vmAt k).stats.family fam).record
            (t.event (p.vmAt k).config (q.counter position)) := by
  by_cases hstep : a = .step
  · subst hstep
    rcases step_visits hp 0 with ⟨hsite, hcalm⟩ | ⟨r, rest, x, f, q, fam, t, hruns, hx, hvisit⟩
    · exact .inl ⟨visit?_of_unsited hsite, hcalm.quickened⟩
    · have hk : r.vm < p.vms.size := (Array.getElem?_eq_some_iff.mp hx).1
      obtain ⟨he, hvisited, hstreams, hstats⟩ := step_of_visits hruns hx hvisit
      exact .inr ⟨r.vm, f.unit, f.position, q, fam, t, he, hk, hvisit.stream, hvisit.finds,
        hvisited, hstreams, hstats⟩
  · -- what is counted is not looked at, so any interpreter that is not reset will do
    obtain ⟨w, hw⟩ : ∃ w, a ≠ .resetStats w := by
      by_cases h0 : a = .resetStats 0
      · exact ⟨1, by rw [h0]; simp⟩
      · exact ⟨0, h0⟩
    obtain ⟨hnone, hcalm⟩ := perform_calm (p := p) hw hstep
    exact .inl ⟨visit?_of_unsited (by rw [hnone]; intro e he; cases he), hcalm.quickened⟩

/-! ### Interpreters keep their tuning -/

/-- The same interpreters, with the same tuning. -/
structure Tuned (xs ys : Array Vm) : Prop where
  size : ys.size = xs.size
  tuning : ∀ v, (ys.getD v default).config.tuning = (xs.getD v default).config.tuning

lemma Tuned.refl (xs : Array Vm) : Tuned xs xs := ⟨rfl, fun _ => rfl⟩

lemma modify_tuned (xs : Array Vm) (k : Nat) (f : Vm → Vm)
    (hf : ∀ x, (f x).config.tuning = x.config.tuning) : Tuned xs (xs.modify k f) where
  size := Array.size_modify ..
  tuning v := by
    rw [getD_modify]
    split
    · exact hf _
    · rfl

lemma settle_tuned {k : Nat} {x : Vm} (hx : p.vms[k]? = some x) (rest : List Run) {out : Progress}
    (hc : out.machine.vm.config = x.config) : Tuned p.vms (p.settle k rest out).vms where
  size := Array.size_setIfInBounds ..
  tuning v := by
    show ((p.settle k rest out).vmAt v).config.tuning = (p.vmAt v).config.tuning
    rw [vmAt_settle]
    split
    · next hk =>
      obtain ⟨rfl, -⟩ := hk
      rw [hc, vmAt_of_getElem? hx]
    · rfl

/-- An action keeps the tuning of every interpreter, or makes one with a valid configuration. -/
lemma perform_tuned (hp : p.world.Sound) (a : Action) :
    Tuned p.vms (p.perform a).vms ∨
      ∃ x, (p.perform a).vms = p.vms.push x ∧ x.config.fault? = none := by
  cases a with
  | request r => exact .inl (.refl _)
  | addUnit code =>
    refine .inl ?_
    dsimp only [perform]
    split <;> exact .refl _
  | quicken unit limit => exact .inl (.refl _)
  | newVm config =>
    dsimp only [perform]
    split
    · next config' hok => exact .inr ⟨_, rfl, Config.fault?_of_validate hok⟩
    · exact .inl (.refl _)
  | setMode vm mode => exact .inl (modify_tuned p.vms vm (·.setMode mode) fun _ => rfl)
  | resetStats vm => exact .inl (modify_tuned p.vms vm Vm.resetStats fun _ => rfl)
  | watch vm observed =>
    exact .inl (modify_tuned p.vms vm (fun x => { x with observed }) fun _ => rfl)
  | invoke vm invocation =>
    refine .inl ?_
    dsimp only [perform]
    split
    · next x hx => exact settle_tuned hx _ (invocation.start_quiet p.world x).vm.config
    · exact .refl _
  | step =>
    refine .inl ?_
    rcases hruns : p.runs with _ | ⟨r, rest⟩
    · simp only [perform, hruns]
      exact .refl _
    rcases hx : p.vms[r.vm]? with _ | x
    · simp only [perform, machine?, hruns, hx, Option.map_none]
      exact .refl _
    rw [perform_step hruns hx]
    refine settle_tuned hx rest ?_
    rcases Machine.step_cases ⟨p.world.heap, p.world.attachments, x, r.frames⟩ hp with
      ⟨-, hquiet⟩ | ⟨f, q, fam, t, hvisit⟩
    · exact hquiet.vm.config
    · exact hvisit.quiet.vm.config

end Process

/-! ### One interpreter and the units that only it executes -/

lemma Quickened.state?_eq_adaptive {q : Quickened} {i : Nat} {n : UInt8}
    (h : q.state? i = some (.adaptive n)) :
    (q.instrAt i).op.isAdaptive = true ∧ q.counter i = n := by
  unfold state? at h
  split at h
  · split at h <;> cases h
  · split at h
    · next ha =>
      cases h
      exact ⟨ha, rfl⟩
    · cases h

/-- The counters of a unit's stream, with `ws` all executions of sites so far: every counter may
stand where it stands, and those of adaptive sites count what has happened since the site last
changed. -/
structure Metered (c : Config) (u : Nat) (stream : Option Quickened) (ws : List Visit) : Prop where
  unquickened : stream = none → ∀ w ∈ ws, w.unit ≠ u
  admitted : ∀ q, stream = some q → ∀ i, c.Admits (q.instrAt i).op (q.counter i)
  counts : ∀ q, stream = some q → ∀ i, (q.instrAt i).op.isAdaptive = true →
    (q.counter i).toNat = Visit.waited u i ws
  /-- A site that is specialized has been executed. -/
  executed : ∀ q, stream = some q → ∀ i, (q.instrAt i).op.family?.isSome = true →
    (q.instrAt i).op.isAdaptive = false → ∃ w ∈ ws, w.unit = u

namespace Metered

variable {c c' : Config} {u i : Nat} {stream stream' : Option Quickened} {ws : List Visit}
  {q : Quickened} {fam : Family} {t : Trial}

lemma empty (c : Config) (u : Nat) : Metered c u none [] where
  unquickened _ _ hw := absurd hw List.not_mem_nil
  admitted q hq := by cases hq
  counts q hq := by cases hq
  executed q hq := by cases hq

/-- The mode does not matter. -/
lemma retune (hm : Metered c u stream ws) (htune : c'.tuning = c.tuning) :
    Metered c' u stream ws := by
  obtain ⟨mode, rfl⟩ : ∃ mode, c' = { c with mode } := by
    cases c
    cases c'
    cases htune
    exact ⟨_, rfl⟩
  exact
    { hm with
      admitted := fun q hq i =>
        ⟨(hm.admitted q hq i).adaptive, (hm.admitted q hq i).specialized⟩ }

/-- While nothing has been executed, any configuration will do. -/
lemma reconfigure (hm : Metered c u stream ws) (hpos : 0 < c'.specializeThreshold)
    (hws : ∀ w ∈ ws, w.unit ≠ u) : Metered c' u stream ws := by
  refine { hm with admitted := fun q hq i => ⟨fun ha => ?_, fun hs ha => ?_⟩ }
  · have hzero := hm.counts q hq i ha
    rw [Visit.waited_of_absent i hws] at hzero
    rw [UInt8.lt_iff_toNat_lt, hzero]
    exact UInt8.lt_iff_toNat_lt.mp hpos
  · obtain ⟨w, hw, hc⟩ := hm.executed q hq i hs ha
    exact absurd hc (hws w hw)

/-- A stream that is new counts from zero. -/
lemma renew (hm : Metered c u none ws) (hpos : 0 < c.specializeThreshold) (code : Array Instr) :
    Metered c u (some (.ofCode code)) ws := by
  have hzero (i : Nat) (ha : ((Quickened.ofCode code).instrAt i).op.isAdaptive = true) :
      (Quickened.ofCode code).counter i = 0 := by
    obtain ⟨f, hop⟩ := QuickOp.eq_adaptive_of_isAdaptive ha
    exact Quickened.counter_ofCode hop
  have hspec (i : Nat) (hs : ((Quickened.ofCode code).instrAt i).op.family?.isSome = true)
      (ha : ((Quickened.ofCode code).instrAt i).op.isAdaptive = false) : False := by
    rw [Quickened.isAdaptive_ofCode hs] at ha
    cases ha
  refine ⟨fun h => ?_, fun q hq i => ?_, fun q hq i ha => ?_, fun q hq i hs ha => ?_⟩
  · cases h
  all_goals cases hq
  · refine ⟨fun ha => ?_, fun hs ha => (hspec i hs ha).elim⟩
    rw [hzero i ha]
    exact hpos
  · rw [hzero i ha, Visit.waited_of_absent i (hm.unquickened rfl)]
    rfl
  · exact (hspec i hs ha).elim

/-- A site of another unit is executed. -/
lemma other (hm : Metered c u stream ws) {w : Visit} (hne : w.unit ≠ u) :
    Metered c u stream (ws ++ [w]) where
  unquickened hs w' hw' := by
    rcases List.mem_append.mp hw' with hold | hlast
    · exact hm.unquickened hs w' hold
    · rw [List.mem_singleton.mp hlast]
      exact hne
  admitted := hm.admitted
  counts q hq i ha := by
    rw [Visit.waited_append, Visit.tick, if_neg fun hc => hne hc.1]
    exact hm.counts q hq i ha
  executed q hq i hs ha := by
    obtain ⟨w', hw', hc⟩ := hm.executed q hq i hs ha
    exact ⟨w', List.mem_append_left _ hw', hc⟩

/-- **A site of the unit is executed.** -/
theorem visit (hm : Metered c u (some q) ws) (hvalid : c.fault? = none) {code : Array Instr}
    (her : q.ErasesTo code) {h : Heap} {cu : CodeUnit} (hf : Machine.Finds h cu q i fam t)
    (k : Nat) :
    Metered c u (some (q.apply i fam (t.event c (q.counter i))))
      (ws ++ [⟨k, u, i, (t.event c (q.counter i)).outcome⟩]) := by
  have hop := hf.family
  have hfit := hf.fits
  have hev : (t.event c (q.counter i)).Fits fam := Trial.event_fits hfit
  have htouch := Quickened.apply_touches hop hev
  have hnow := hm.admitted q rfl i
  refine ⟨fun h => ?_, fun q' hq' j => ?_, fun q' hq' j ha => ?_,
    fun q' hq' j hs ha => ⟨_, List.mem_append_right _ (List.mem_singleton_self _), rfl⟩⟩
  · cases h
  all_goals
    cases hq'
    by_cases hj : j = i
  · subst hj
    rw [Quickened.op_apply hop, Quickened.counter_apply her.laid hop hev]
    exact Trial.event_admitted hvalid hop hfit hnow
  · rw [htouch.instr j hj, htouch.counter her.laid hj]
    exact hm.admitted q rfl j
  · subst hj
    rw [Quickened.op_apply hop] at ha
    rw [Quickened.counter_apply her.laid hop hev, Visit.waited_append, Visit.tick,
      if_pos ⟨rfl, rfl⟩]
    exact Trial.event_counts hfit hnow.adaptive (hm.counts q rfl j) ha
  · rw [htouch.instr j hj] at ha
    rw [htouch.counter her.laid hj, Visit.waited_append, Visit.tick, if_neg fun hc => hj hc.2.symm]
    exact hm.counts q rfl j ha

end Metered

namespace Process

variable {own : Nat → Bool} {p p' : Process} {v : Nat} {ws : List Visit}

/-- The counters of an interpreter's own units, in a process that has come to it by actions. -/
structure Gauged (own : Nat → Bool) (p : Process) (v : Nat) (ws : List Visit) : Prop where
  valid : (p.vmAt v).config.fault? = none
  /-- The units are executed by nobody before the interpreter is there. -/
  present : ∀ w ∈ ws, own w.unit = true → v < p.vms.size
  metered : ∀ u, own u = true →
    Metered (p.vmAt v).config u (p.world.attachmentAt u).quickened ws

namespace Gauged

/-- Units may be quickened. -/
lemma streams (hg : Gauged own p v ws) (hs : Streams p p') (hvms : p'.vms = p.vms) :
    Gauged own p' v ws := by
  have hvm : p'.vmAt v = p.vmAt v := by rw [vmAt, hvms, vmAt]
  refine ⟨by rw [hvm]; exact hg.valid, by rw [hvms]; exact hg.present, fun u hu => ?_⟩
  have hm := hg.metered u hu
  rw [hvm]
  rcases hs u with hsame | ⟨hnone, code, hnew⟩
  · rw [hsame]
    exact hm
  · rw [hnone] at hm
    rw [hnew]
    exact hm.renew ((p.vmAt v).config.specializeThreshold_pos hg.valid) code

/-- Interpreters may change their modes, and new ones be made. -/
lemma reconfigure (hg : Gauged own p v ws) (hw : p'.world = p.world)
    (ht : Tuned p.vms p'.vms ∨ ∃ x, p'.vms = p.vms.push x ∧ x.config.fault? = none) :
    Gauged own p' v ws := by
  rcases ht with ht | ⟨x, hpush, hx⟩
  · refine ⟨?_, fun w hw hown => ?_, fun u hu => ?_⟩
    · have htuning : (p'.vmAt v).config.tuning = (p.vmAt v).config.tuning := ht.tuning v
      have hvalid := hg.valid
      rw [← Config.fault?_tuning] at hvalid ⊢
      rw [htuning, hvalid]
    · rw [ht.size]
      exact hg.present w hw hown
    · rw [hw]
      exact (hg.metered u hu).retune (ht.tuning v)
  · have hget : p'.vmAt v = if v = p.vms.size then x else p.vmAt v := by
      rw [vmAt, hpush, getD_push]
      rfl
    have hgrown : ∀ w ∈ ws, own w.unit = true → v < p'.vms.size := fun w hw hown => by
      rw [hpush, Array.size_push]
      exact Nat.lt_succ_of_lt (hg.present w hw hown)
    by_cases hv : v = p.vms.size
    · -- nobody has executed these units
      rw [if_pos hv] at hget
      refine ⟨by rw [hget, hx], hgrown, fun u hu => ?_⟩
      rw [hget, hw]
      refine (hg.metered u hu).reconfigure (x.config.specializeThreshold_pos hx) fun w hmem hc => ?_
      exact absurd (hg.present w hmem (by rw [hc, hu])) (by omega)
    · rw [if_neg hv] at hget
      refine ⟨by rw [hget]; exact hg.valid, hgrown, fun u hu => ?_⟩
      rw [hget, hw]
      exact hg.metered u hu

/-- A site is executed, by the interpreter if its unit is one of these. -/
lemma visit (hp : p.world.Sound) (hg : Gauged own p v ws) {k u i : Nat} {q : Quickened}
    {fam : Family} {t : Trial} (hk : k < p.vms.size) (howner : own u = true → k = v)
    (hq : (p.world.attachmentAt u).quickened = some q)
    (hf : Machine.Finds p.world.heap (p.world.heap.unitAt u) q i fam t) :
    Gauged own
      { p with
        world :=
          { p.world with
            attachments := (Machine.visit p.world.attachments (p.vmAt k) u i fam t).1 } } v
      (ws ++ [⟨k, u, i, (t.event (p.vmAt k).config (q.counter i)).outcome⟩]) := by
  have hcounter : Machine.counterAt p.world.attachments u i = q.counter i := by
    rw [Machine.counterAt, show (p.world.attachments.getD u default).quickened = _ from hq]
  refine ⟨hg.valid, fun w hw hown => ?_, fun u' hu' => ?_⟩
  · rcases List.mem_append.mp hw with hold | hlast
    · exact hg.present w hold hown
    · rw [List.mem_singleton.mp hlast] at hown
      rw [← howner hown]
      exact hk
  · have hm := hg.metered u' hu'
    have hget :
        ((Machine.visit p.world.attachments (p.vmAt k) u i fam t).1.getD u' default).quickened =
          if u = u' then some (q.apply i fam (t.event (p.vmAt k).config (q.counter i)))
          else (p.world.attachmentAt u').quickened := by
      dsimp only [Machine.visit]
      rw [getD_modify, hcounter]
      by_cases hne : u = u'
      · subst hne
        rw [if_pos ⟨rfl, lt_size_of_quickened hq⟩, if_pos rfl]
        exact congrArg (Option.map _) hq
      · rw [if_neg fun hc => hne hc.1, if_neg hne]
        rfl
    rw [World.attachmentAt, hget]
    by_cases hne : u = u'
    · subst hne
      obtain rfl := howner hu'
      rw [if_pos rfl]
      rw [hq] at hm
      exact hm.visit hg.valid (hp.streams u q hq).erases hf k
    · rw [if_neg hne]
      exact hm.other hne

/-- **One action**, if whoever executes one of these units is the interpreter. -/
theorem perform (hp : p.world.Sound) (hg : Gauged own p v ws) (a : Action)
    (hown : ∀ e ∈ (p.execution? a).toList, own e.unit = true → e.vm = v) :
    Gauged own (p.perform a) v (ws ++ (p.visit? a).toList) := by
  -- first what happens to streams, and then what happens to interpreters
  have ht := perform_tuned hp a
  rcases perform_visits hp a with
    ⟨hnone, hs⟩ | ⟨k, u, i, q, fam, t, he, hk, hq, hf, hvisit, hs, -⟩
  · rw [hnone, Option.toList_none, List.append_nil]
    have hmid : Gauged own { p with world := (p.perform a).world } v ws := hg.streams hs rfl
    exact hmid.reconfigure rfl ht
  · rw [he] at hown
    rw [hvisit, Option.toList_some]
    have hseen := hg.visit hp hk (hown ⟨k, u, some fam⟩ (by simp)) hq hf
    have hmid : Gauged own { p with world := (p.perform a).world } v _ := hseen.streams hs rfl
    exact hmid.reconfigure rfl ht

/-- **Whatever happens, counters stay where they may stand.** -/
theorem after (hp : p.world.Sound) (hg : Gauged own p v ws) (as : List Action)
    (hown : ∀ e ∈ p.history as, own e.unit = true → e.vm = v) :
    Gauged own (p.after as) v (ws ++ p.visits as) := by
  induction as generalizing p ws with
  | nil =>
    rw [visits, List.append_nil]
    exact hg
  | cons a as ih =>
    rw [visits, ← List.append_assoc]
    exact ih (perform_sound hp a)
      (hg.perform hp a fun e he => hown e (List.mem_append_left _ he))
      fun e he => hown e (List.mem_append_right _ he)

end Gauged

end Process

end AdaptiveVM
