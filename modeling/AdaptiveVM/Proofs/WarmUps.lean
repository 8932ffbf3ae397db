import AdaptiveVM.Proofs.Budget
import AdaptiveVM.Proofs.Safety
import AdaptiveVM.Proofs.Sightings

/-!
What warms a unit up.

A unit is warmed up when it is entered in a frame of its own, and when a frame of it takes a jump
that does not lead forward. What a step warms up can be read off the static instruction, whichever
stream the frame reads: a step warms up just that unit, once, or none.
-/

namespace AdaptiveVM

/-- The settings and the counts of quickening are the same. -/
structure Vm.Levels (vm vm' : Vm) : Prop where
  config : vm'.config = vm.config
  quickened : vm'.stats.quickenedUnits = vm.stats.quickenedUnits
  failures : vm'.stats.quickenFailures = vm.stats.quickenFailures

namespace Vm.Levels

variable {vm vm' vm'' : Vm}

lemma refl (vm : Vm) : vm.Levels vm := ⟨rfl, rfl, rfl⟩

lemma trans (hl : vm.Levels vm') (hl' : vm'.Levels vm'') : vm.Levels vm'' :=
  ⟨hl'.config.trans hl.config, hl'.quickened.trans hl.quickened, hl'.failures.trans hl.failures⟩

end Vm.Levels

lemma Vm.observe_levels (vm : Vm) (unit : String) (position : Nat) (i : Instr) :
    vm.Levels (vm.observe unit position i) := by
  unfold Vm.observe
  split
  · exact ⟨rfl, rfl, rfl⟩
  · exact .refl vm

lemma Vm.record_levels (vm : Vm) (fam : Family) (ev : SiteEvent) :
    vm.Levels (vm.record fam ev) := by
  cases fam <;> exact ⟨rfl, rfl, rfl⟩

namespace Machine

variable {h : Heap} {a a' : Array Attachment} {vm vm' : Vm} {u : Nat}

/-! ### One warm-up -/

/-- **What a warm-up does**: nothing where interpreters only trace, or where there is nothing left
to do; otherwise it is one more tick, and at the threshold the unit is quickened if there is room
for it, and cooled down if not. -/
lemma warmUp_outcomes (h : Heap) (a : Array Attachment) (vm : Vm) (u : Nat) :
    (vm.config.mode = .tracing ∧ warmUp h a vm u = (.ok false, a, vm)) ∨
    (vm.config.mode ≠ .tracing ∧ (a.getD u default).quickened.isSome = true ∧
      warmUp h a vm u = (.ok true, a, vm)) ∨
    (vm.config.mode ≠ .tracing ∧ (a.getD u default).quickened = none ∧
      let ticked := a.modify u Attachment.tick
      let q := Quickened.ofCode (h.unitAt u).instrs
      ((ticked.getD u default).warmup < vm.config.warmupThreshold ∧
        warmUp h a vm u = (.ok false, ticked, vm)) ∨
      (vm.config.warmupThreshold ≤ (ticked.getD u default).warmup ∧
        warmUp h a vm u = (.ok true, ticked.modify u (·.install q), vm.recordQuickened)) ∨
      (vm.config.warmupThreshold ≤ (ticked.getD u default).warmup ∧
        vm.config.memoryLimit < q.memorySize ∧
        warmUp h a vm u = (.error (.limit (.memory q.memorySize vm.config.memoryLimit)),
          ticked.modify u Attachment.cool, vm.recordQuickenFailure))) := by
  unfold warmUp
  by_cases hmode : vm.config.mode = .tracing
  · exact .inl ⟨hmode, if_pos hmode⟩
  rw [if_neg hmode]
  by_cases hsome : (a.getD u default).quickened.isSome = true
  · exact .inr (.inl ⟨hmode, hsome, if_pos hsome⟩)
  rw [if_neg hsome]
  refine .inr (.inr ⟨hmode, by simpa using hsome, ?_⟩)
  dsimp only
  by_cases hcold : ((a.modify u Attachment.tick).getD u default).warmup < vm.config.warmupThreshold
  · exact .inl ⟨hcold, if_pos hcold⟩
  rw [if_neg hcold, Quickened.quicken_eq]
  have hhot := UInt32.not_lt.mp hcold
  by_cases hroom : (Quickened.ofCode (h.unitAt u).instrs).memorySize ≤ vm.config.memoryLimit
  · rw [if_pos hroom]
    exact .inr (.inl ⟨hhot, rfl⟩)
  · rw [if_neg hroom]
    exact .inr (.inr ⟨hhot, Nat.not_le.mp hroom, rfl⟩)

/-- Of an interpreter only its settings matter. -/
lemma warmUp_levels (hl : vm.Levels vm') (h : Heap) (a : Array Attachment) (u : Nat) :
    (warmUp h a vm' u).1 = (warmUp h a vm u).1 ∧
      (warmUp h a vm' u).2.1 = (warmUp h a vm u).2.1 ∧
      (warmUp h a vm u).2.2.Levels (warmUp h a vm' u).2.2 := by
  unfold warmUp
  rw [hl.config]
  split
  · exact ⟨rfl, rfl, hl⟩
  · split
    · exact ⟨rfl, rfl, hl⟩
    · dsimp only
      split
      · exact ⟨rfl, rfl, hl⟩
      · split
        · exact ⟨rfl, rfl, hl.config, congrArg (· + 1) hl.quickened, hl.failures⟩
        · exact ⟨rfl, rfl, hl.config, hl.quickened, congrArg (· + 1) hl.failures⟩

/-! ### Frames -/

/-- Frames read the quickened streams of units that have one. -/
def Quick (a : Array Attachment) (frames : List Frame) : Prop :=
  ∀ f ∈ frames, f.quick = true → (a.getD f.unit default).quickened.isSome = true

namespace Quick

variable {f g : Frame} {frames rest : List Frame}

lemma nil (a : Array Attachment) : Quick a [] := fun _ hf => absurd hf List.not_mem_nil

lemma tail (hq : Quick a (f :: rest)) : Quick a rest :=
  fun g hg => hq g (List.mem_cons_of_mem _ hg)

lemma cons (hf : f.quick = true → (a.getD f.unit default).quickened.isSome = true)
    (hq : Quick a rest) : Quick a (f :: rest) := by
  intro g hg
  rcases List.mem_cons.mp hg with rfl | hrest
  · exact hf
  · exact hq g hrest

/-- Only the unit of a frame and the stream it reads matter. -/
lemma replace (hq : Quick a (f :: rest)) (hunit : g.unit = f.unit) (hquick : g.quick = f.quick) :
    Quick a (g :: rest) := by
  refine cons ?_ hq.tail
  rw [hunit, hquick]
  exact hq f List.mem_cons_self

/-- Units stay quickened. -/
lemma mono (hq : Quick a frames)
    (hsome : ∀ u, (a.getD u default).quickened.isSome = true →
      (a'.getD u default).quickened.isSome = true) : Quick a' frames :=
  fun f hf hquick => hsome f.unit (hq f hf hquick)

end Quick

/-! ### Steps -/

/-- A way of going on that warms up one unit, once, or none. Its frames read streams that are there,
if the unit is there. -/
inductive Heats (h : Heap) (a : Array Attachment) (vm : Vm) : Option Nat → Progress → Prop where
  | cold {out : Progress} (attachments : out.machine.attachments = a)
      (levels : vm.Levels out.machine.vm)
      (quick : Quick out.machine.attachments out.machine.frames) :
      Heats h a vm none out
  | warm {u : Nat} {b : Bool} {m : Machine} (result : (warmUp h a vm u).1 = .ok b)
      (attachments : m.attachments = (warmUp h a vm u).2.1)
      (levels : (warmUp h a vm u).2.2.Levels m.vm)
      (quick : (vm.config.mode ≠ .tracing → u < a.size) → Quick m.attachments m.frames) :
      Heats h a vm (some u) (.running m)
  | failed {u : Nat} {e : Error} {m : Machine} (result : (warmUp h a vm u).1 = .error e)
      (attachments : m.attachments = (warmUp h a vm u).2.1)
      (levels : (warmUp h a vm u).2.2.Levels m.vm) (frames : m.frames = []) :
      Heats h a vm (some u) (.failed m e)

namespace Heats

variable {m : Machine} {f : Frame} {rest : List Frame} {u? : Option Nat} {out : Progress}

/-- Of the interpreter only its settings and counts matter. -/
lemma of_levels (hl : vm.Levels vm') (hh : Heats h a vm' u? out) : Heats h a vm u? out := by
  cases hh with
  | cold attachments levels quick => exact .cold attachments (hl.trans levels) quick
  | @warm u b m result attachments levels quick =>
    obtain ⟨hresult, hattachments, hlevels⟩ := warmUp_levels hl h a u
    exact .warm (hresult ▸ result) (attachments.trans hattachments) (hlevels.trans levels)
      (hl.config ▸ quick)
  | @failed u e m result attachments levels frames =>
    obtain ⟨hresult, hattachments, hlevels⟩ := warmUp_levels hl h a u
    exact .failed (hresult ▸ result) (attachments.trans hattachments) (hlevels.trans levels) frames

lemma deliver (hq : Quick m.attachments m.frames) (h : Heap) (v : Value) :
    Heats h m.attachments m.vm none (m.deliver v) := by
  obtain ⟨h', a, vm, _ | ⟨f, rest⟩⟩ := m
  · exact .cold rfl (.refl vm) hq
  · exact .cold rfl (.refl vm) (hq.replace rfl rfl)

lemma fail (h : Heap) (m : Machine) (e : Error) : Heats h m.attachments m.vm none (m.fail e) :=
  .cold rfl ⟨rfl, rfl, rfl⟩ (.nil _)

lemma answer (hq : Quick m.attachments m.frames) (h : Heap) (b : Ref .builtin)
    (r : Except Error Value) : Heats h m.attachments m.vm none (m.answer b r) := by
  cases r with
  | ok v => exact deliver hq h v
  | error e => exact fail h m _

/-- A warm-up that fails ends the execution. -/
lemma fail_warmUp {u : Nat} {e : Error} (hw : (Machine.warmUp h a vm u).1 = .error e)
    (frames : List Frame) :
    Heats h a vm (some u)
      (Machine.fail
        ⟨h, (Machine.warmUp h a vm u).2.1, (Machine.warmUp h a vm u).2.2, frames⟩ e) := by
  -- such an error is a limit, and keeps no trace of frames
  obtain ⟨limit, rfl⟩ : ∃ limit, e = .limit limit := by
    rcases warmUp_outcomes h a vm u with
      ⟨-, he⟩ | ⟨-, -, he⟩ | ⟨-, -, ⟨-, he⟩ | ⟨-, he⟩ | ⟨-, -, he⟩⟩ <;> rw [he] at hw <;> cases hw
    exact ⟨_, rfl⟩
  exact .failed hw rfl ⟨rfl, rfl, rfl⟩ rfl

lemma quick_warmUp (hq : Quick a rest) {u : Nat} {quick : Bool}
    (hw : (Machine.warmUp h a vm u).1 = .ok quick) (hunit : f.unit = u) (hf : f.quick = quick)
    (hu : vm.config.mode ≠ .tracing → u < a.size) :
    Quick (Machine.warmUp h a vm u).2.1 (f :: rest) := by
  have hwarmed : Warmed h a (Machine.warmUp h a vm u).2.1 :=
    ((Quiet.refl h a vm []).warmUp u []).warmed
  refine .cons (fun hquick => ?_) (hq.mono fun u => hwarmed.isSome)
  rw [← hf, hquick] at hw
  have hmode : vm.config.mode ≠ .tracing := by
    intro htracing
    rw [warmUp, if_pos htracing] at hw
    cases hw
  rw [hunit]
  exact isSome_of_warmUp (Prod.ext hw rfl) (hu hmode)

lemma enter (hq : Quick m.attachments m.frames) (u : Nat) (globals : Ref .mod)
    (locals : Array (Option Value)) :
    Heats m.heap m.attachments m.vm
      (if m.vm.depth < m.vm.config.maxFrameDepth then some u else none)
      (m.enter u globals locals) := by
  obtain ⟨h, a, vm, frames⟩ := m
  unfold Machine.enter
  dsimp only at hq ⊢
  by_cases hdepth : vm.depth < vm.config.maxFrameDepth
  · rw [if_pos hdepth, if_neg (Nat.not_le.mpr hdepth)]
    split
    · next quick a' vm' hw =>
      have hok : (Machine.warmUp h a vm u).1 = .ok quick := by rw [hw]
      refine .warm hok (by rw [hw]) (by rw [hw]; exact ⟨rfl, rfl, rfl⟩) fun hu => ?_
      have hquick := quick_warmUp (f := { unit := u, globals, locals, quick }) hq hok rfl rfl hu
      rw [hw] at hquick
      exact hquick
    · next e a' vm' hw =>
      have hfail := fail_warmUp (h := h) (a := a) (by rw [hw]) frames
      rw [hw] at hfail
      exact hfail
  · rw [if_neg hdepth, if_pos (Nat.not_lt.mp hdepth)]
    exact fail h ⟨h, a, vm, frames⟩ _

lemma jump (hq : Quick a (f :: rest)) (target : Nat) :
    Heats h a vm (if target ≤ f.position then some f.unit else none)
      (Machine.jump h a vm f rest target) := by
  unfold Machine.jump
  by_cases hback : target ≤ f.position
  · rw [if_pos hback]
    rcases hquick : f.quick with _ | _
    · rw [if_pos ⟨hback, rfl⟩]
      split
      · next quick a' vm' hw =>
        have hok : (Machine.warmUp h a vm f.unit).1 = .ok quick := by rw [hw]
        refine .warm hok (by rw [hw]) (by rw [hw]; exact ⟨rfl, rfl, rfl⟩) fun hu => ?_
        have hquick :=
          quick_warmUp (f := { f with position := target, quick }) hq.tail hok rfl rfl hu
        rw [hw] at hquick
        exact hquick
      · next e a' vm' hw =>
        have hfail := fail_warmUp (h := h) (a := a) (by rw [hw]) (f :: rest)
        rw [hw] at hfail
        exact hfail
    · -- the unit is quickened, so a warm-up would do nothing
      have hsome := hq f List.mem_cons_self hquick
      have hnext : Quick a ({ f with position := target } :: rest) := hq.replace rfl rfl
      rw [if_neg (by simp)]
      rcases warmUp_outcomes h a vm f.unit with ⟨-, he⟩ | ⟨-, -, he⟩ | ⟨-, hnone, -⟩
      · exact .warm (by rw [he]) (by rw [he]) (by rw [he]; exact ⟨rfl, rfl, rfl⟩)
          fun _ => hquick ▸ hnext
      · exact .warm (by rw [he]) (by rw [he]) (by rw [he]; exact ⟨rfl, rfl, rfl⟩)
          fun _ => hquick ▸ hnext
      · rw [hnone] at hsome
        cases hsome
  · rw [if_neg hback, if_neg fun hc => hback hc.1]
    exact .cold rfl (.refl vm) (hq.replace rfl rfl)

end Heats

end Machine

/-! ### What a step warms up -/

/-- The unit that a call enters in a frame of its own: the callee is a function whose parameters the
arguments fill, and there may be one more frame. -/
def Vm.entered? (vm : Vm) (h : Heap) (callee : Value) (args : List Value) : Option Nat :=
  match callee with
  | .function f =>
    let fn := h.functionAt f
    let u := h.unitAt fn.unit
    match Binding.bind f.name u.argcount.toNat u.nlocals.toNat fn.defaults args with
    | .ok _ => if vm.depth < vm.config.maxFrameDepth then some fn.unit else none
    | .error _ => none
  | _ => none

/-- The unit that an effect warms up: the one a call enters, or the frame's own if it takes a jump
that does not lead forward. -/
def Effect.warms? (h : Heap) (vm : Vm) : Effect → Option Nat
  | .jump f target => if target ≤ f.position then some f.unit else none
  | .call _ callee args => vm.entered? h callee args
  | _ => none

/-- The unit that a static instruction warms up. -/
def Frame.warms? (f : Frame) (h : Heap) (vm : Vm) (i : Instr) : Option Nat :=
  match f.effect h vm.builtins (h.unitAt f.unit) i.op i.arg with
  | .ok e => e.warms? h vm
  | .error _ => none

/-- The unit that the next step warms up. -/
def Machine.warms? (m : Machine) : Option Nat :=
  match m.frames with
  | [] => none
  | f :: _ =>
    match (m.heap.unitAt f.unit).instr? f.position with
    | some i => f.warms? m.heap m.vm i
    | none => none

/-- The unit that is warmed up when an execution is begun. -/
def Invocation.warms? (w : World) (vm : Vm) : Invocation → Option Nat
  | .run unit _ =>
    if (w.heap.unitAt unit).argcount = 0 ∧ vm.depth < vm.config.maxFrameDepth then some unit
    else none
  | .call callee args => vm.entered? w.heap callee args

lemma Frame.warms?_congr {vm vm' : Vm} (hb : vm'.builtins = vm.builtins)
    (hd : vm'.depth = vm.depth) (hc : vm'.config = vm.config) (f : Frame) (h : Heap) (i : Instr) :
    f.warms? h vm' i = f.warms? h vm i := by
  have heffect (e : Effect) : e.warms? h vm' = e.warms? h vm := by
    cases e with
    | call f callee args =>
      cases callee with
      | function r => simp only [Effect.warms?, Vm.entered?, hd, hc]
      | _ => rfl
    | _ => rfl
  rw [warms?, warms?, hb]
  split
  · exact heffect _
  · rfl

namespace Machine

variable {h : Heap} {a : Array Attachment} {vm : Vm} {m : Machine} {f : Frame} {rest : List Frame}

lemma call_heats (hq : Quick m.attachments m.frames) (callee : Value) (args : List Value) :
    Heats m.heap m.attachments m.vm (m.vm.entered? m.heap callee args) (m.call callee args) := by
  cases callee with
  | function r =>
    unfold Machine.call Vm.entered?
    dsimp only
    rcases Binding.bind _ _ _ _ args with cause | locals
    · exact Heats.fail m.heap m _
    · exact Heats.enter hq ..
  | builtin b =>
    exact Heats.answer (m := ⟨(m.heap.invoke b args).2, m.attachments, m.vm, m.frames⟩) hq
      m.heap b _
  | cls c =>
    unfold Machine.call Vm.entered?
    dsimp only
    split
    · exact Heats.deliver (m := ⟨(m.heap.instantiate c).2, m.attachments, m.vm, m.frames⟩) hq
        m.heap _
    · exact Heats.fail m.heap m _
  | _ => exact Heats.fail m.heap m _

lemma leave_heats (hq : Quick a rest) (v : Value) : Heats h a vm none (leave h a vm rest v) := by
  have hlevels : vm.Levels { vm with depth := vm.depth - 1 } := ⟨rfl, rfl, rfl⟩
  have hdeliver := Heats.deliver (m := ⟨h, a, { vm with depth := vm.depth - 1 }, rest⟩) hq h v
  exact .of_levels hlevels hdeliver

lemma stepPlain_heats (hq : Quick a (f :: rest)) (i : Instr) :
    Heats h a vm (f.warms? h vm i) (stepPlain h a vm f rest (h.unitAt f.unit) i.op i.arg) := by
  unfold stepPlain Frame.warms?
  rcases he : f.effect h vm.builtins (h.unitAt f.unit) i.op i.arg with e | e
  · exact Heats.fail h ⟨h, a, vm, f :: rest⟩ e
  -- the frame that goes on is in the same unit, and reads the same stream
  have hsame (g : Frame) (hg : e.frame? = some g) : Quick a (g :: rest) := by
    obtain ⟨hunit, -, hquick⟩ := Frame.effect_frame he hg
    exact hq.replace hunit hquick
  cases e with
  | next g => exact .cold rfl (.refl vm) ((hsame g rfl).replace rfl rfl)
  | jump g target => exact Heats.jump (hsame g rfl) target
  | assign g key value => exact .cold rfl (.refl vm) ((hsame g rfl).replace rfl rfl)
  | store g receiver key value => exact .cold rfl (.refl vm) ((hsame g rfl).replace rfl rfl)
  | call g callee args => exact call_heats (m := ⟨h, a, vm, g :: rest⟩) (hsame g rfl) callee args
  | leave v => exact leave_heats hq.tail v

/-- What happens at a site does not cool or warm its unit, and the unit stays quickened. -/
lemma visit_quick {frames : List Frame} (hq : Quick a frames) (vm : Vm) (u p : Nat) (fam : Family)
    (t : Trial) : Quick (visit a vm u p fam t).1 frames := by
  refine hq.mono fun k hk => ?_
  rw [visit, getD_modify]
  split
  · next hc =>
    obtain ⟨rfl, -⟩ := hc
    simpa [Attachment.apply] using hk
  · exact hk

/-- **What a step warms up**, in a sound world: what the static instruction does, after the event if
the step executes a site. -/
theorem step_heats (m : Machine) (hw : World.Sound ⟨m.heap, m.attachments⟩)
    (hq : Quick m.attachments m.frames) :
    (m.site? = none ∧ Heats m.heap m.attachments m.vm m.warms? m.step) ∨
      ∃ f q fam t, m.Visits f q fam t ∧
        Heats m.heap (visit m.attachments m.vm f.unit f.position fam t).1 m.vm m.warms? m.step := by
  obtain ⟨h, a, vm, _ | ⟨f, rest⟩⟩ := m
  · exact .inl ⟨rfl, .cold rfl (.refl vm) hq⟩
  rcases hi : (h.unitAt f.unit).instr? f.position with _ | i
  · refine .inl ⟨by simp only [site?, hi], ?_⟩
    rw [step_of_none hi]
    simp only [warms?, hi]
    exact leave_heats hq.tail .none
  have hwarms : warms? ⟨h, a, vm, f :: rest⟩ = f.warms? h vm i := by simp only [warms?, hi]
  have hobserve := vm.observe_levels (h.unitAt f.unit).name f.position i
  have hkeep := vm.observe_keeps (h.unitAt f.unit).name f.position i
  have hdepth := vm.depth_observe (h.unitAt f.unit).name f.position i
  rw [hwarms]
  rcases step_sees vm rest hw hi with
    ⟨hsite, hstep⟩ | ⟨q, s, fam, t, hstream, hsite, hsees⟩
  · refine .inl ⟨hsite, .of_levels hobserve ?_⟩
    rw [hstep, ← Frame.warms?_congr hkeep.builtins hdepth hkeep.config]
    exact stepPlain_heats hq i
  · have hvisit := visit_of_keeps hkeep a f.unit f.position fam t
    have hlevels := hobserve.trans (Vm.record_levels _ fam (t.event
      (vm.observe (h.unitAt f.unit).name f.position i).config (counterAt a f.unit f.position)))
    refine .inr ⟨f, q, fam, t, hsees.visits hi hstream hsite, ?_⟩
    rw [hsees.eq, ← Frame.warms?_congr hkeep.builtins hdepth hkeep.config, ← hvisit.1]
    exact .of_levels hlevels (stepPlain_heats (visit_quick hq _ f.unit f.position fam t) i)

/-- A site leads into another unit by a call alone. -/
lemma Visits.call_of_warms? {q : Quickened} {fam : Family} {t : Trial} {u : Nat}
    (hv : m.Visits f q fam t) (hwarms : m.warms? = some u) (hu : f.unit ≠ u) : fam = .call := by
  obtain ⟨rest, hframes⟩ := List.head?_eq_some_iff.mp hv.frame
  obtain ⟨i, s, hi, hsight, hfaces⟩ := hv.faces
  simp only [warms?, hframes, hi, Frame.warms?] at hwarms
  rcases he : f.effect m.heap m.vm.builtins (m.heap.unitAt f.unit) i.op i.arg with e | e <;>
    simp only [he] at hwarms
  · cases hwarms
  cases e with
  | jump g target =>
    obtain ⟨hunit, -⟩ := Frame.effect_frame he rfl
    rw [Effect.warms?] at hwarms
    split at hwarms <;> cases hwarms
    exact absurd hunit.symm hu
  | call g callee args =>
    have hop := Frame.op_of_call? (Frame.call?_of_effect he)
    rw [Frame.sight?, hop] at hsight
    dsimp only at hsight
    split at hsight <;> cases hsight
    cases hfaces
    rfl
  | next g | assign g key value | store g receiver key value | leave v => cases hwarms

end Machine

end AdaptiveVM
