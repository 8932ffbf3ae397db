import AdaptiveVM.Proofs.Equivalence

/-!
Tracing neither reads nor writes anything that has been learnt.

A machine is static if its interpreter traces and all its frames read static streams. Replacing the
attachments and the counts of a static machine commutes with a step: the step of the one is the
step of the other with the attachments and counts replaced. Replacing them by what they are shows
that a step keeps them, and replacing them by anything else that nothing depends on them. Both
carry over to whole executions, and to everything a host does while its interpreters trace.
-/

namespace AdaptiveVM

/-- The interpreter traces, and so do all frames. -/
structure Machine.Static (m : Machine) : Prop where
  mode : m.vm.config.mode = .tracing
  frames : ∀ f ∈ m.frames, f.quick = false

/-- The end of an execution with other attachments and counts. -/
def Machine.Ending.traced (e : Ending) (a : Array Attachment) (s : Stats) : Ending :=
  ⟨e.heap, a, e.vm.traced s, e.result⟩

section Machines

variable {m : Machine} {p : Progress} {vm : Vm} {a : Array Attachment} {s : Stats}

lemma Frame.traced_of_static {f : Frame} (hf : f.quick = false) : f.traced = f := by
  rw [traced, ← hf]

lemma Vm.traced_of_tracing (hmode : vm.config.mode = .tracing) (s : Stats) :
    vm.traced s = { vm with stats := s } := by
  rw [traced, setMode, ← hmode]

lemma Config.not_starves {c : Config} (hmode : c.mode = .tracing) (code : Array Instr) :
    ¬ c.Starves code := by
  intro hs
  rw [hs.1] at hmode
  cases hmode

namespace Machine

lemma static_traced (m : Machine) (a : Array Attachment) (s : Stats) : (m.traced a s).Static where
  mode := rfl
  frames f hf := by
    obtain ⟨f', -, rfl⟩ := List.mem_map.mp hf
    rfl

namespace Static

lemma traced_self (hm : m.Static) : m.traced m.attachments m.vm.stats = m := by
  have hframes : m.frames.map Frame.traced = m.frames := by
    conv_rhs => rw [← List.map_id m.frames]
    exact List.map_congr_left fun f hf => Frame.traced_of_static (hm.frames f hf)
  rw [traced, hframes, Vm.traced_of_tracing hm.mode]

/-- Replacing attachments and counts commutes with a step. -/
lemma step_traced (hm : m.Static) (a : Array Attachment) (s : Stats) :
    m.step.traced a s = (m.traced a s).step := by
  have hshadow := step_static_shadows m a s fun f hf =>
    .inl (hm.frames f (List.mem_of_mem_head? hf))
  generalize (m.traced a s).step = p' at hshadow
  cases hshadow with
  | same eq => exact eq
  | starved _ _ code => exact absurd code (Config.not_starves hm.mode _)

end Static

end Machine

namespace Progress

/-- Where a static machine goes, it is static, and what has been learnt is as before. -/
structure Leaves (p : Progress) (a : Array Attachment) (s : Stats) : Prop where
  static : p.machine.Static
  attachments : p.machine.attachments = a
  stats : p.machine.vm.stats = s

/-- A way of going on that stays the same when attachments and counts are replaced by the given
ones has those. -/
lemma leaves_of_traced (hp : p.traced a s = p) : p.Leaves a s := by
  cases p with
  | running m =>
    have hm : m.traced a s = m := Progress.running.inj hp
    exact ⟨hm ▸ m.static_traced a s, congrArg Machine.attachments hm.symm,
      congrArg (fun m => m.vm.stats) hm.symm⟩
  | returned m v =>
    have hm : m.traced a s = m := (Progress.returned.inj hp).1
    exact ⟨hm ▸ m.static_traced a s, congrArg Machine.attachments hm.symm,
      congrArg (fun m => m.vm.stats) hm.symm⟩
  | failed m e =>
    have hm : m.traced a s = m := (Progress.failed.inj hp).1
    exact ⟨hm ▸ m.static_traced a s, congrArg Machine.attachments hm.symm,
      congrArg (fun m => m.vm.stats) hm.symm⟩

end Progress

lemma Machine.Static.step (hm : m.Static) : m.step.Leaves m.attachments m.vm.stats := by
  refine Progress.leaves_of_traced ?_
  rw [hm.step_traced, hm.traced_self]

/-- Replacing attachments and counts commutes with an execution of any length. -/
lemma Progress.run_traced (hp : p.machine.Static) (a : Array Attachment) (s : Stats) (n : Nat) :
    (p.traced a s).run n = (p.run n).map (·.traced a s) := by
  induction n generalizing p with
  | zero =>
    cases p with
    | running m => rfl
    | returned m v => rfl
    | failed m e => rfl
  | succ n ih =>
    cases p with
    | running m =>
      have hm : m.Static := hp
      show (m.traced a s).step.run n = (m.step.run n).map _
      rw [← hm.step_traced a s, ih hm.step.static]
    | returned m v => rfl
    | failed m e => rfl

/-- Beginning to trace commutes with replacing attachments and counts. -/
lemma Invocation.start_traced (i : Invocation) (w : World) (hmode : vm.config.mode = .tracing)
    (a : Array Attachment) (s : Stats) :
    (i.start w vm).traced a s = i.start ⟨w.heap, a⟩ { vm with stats := s } := by
  have hidle : (Machine.idle w vm).traced a s =
      Machine.idle ⟨w.heap, a⟩ { vm with stats := s } := by
    rw [Machine.idle, Machine.traced, Vm.traced_of_tracing hmode]
    rfl
  have hsame {p p' : Progress} (hp : p.Shadows vm.config a s p') : p.traced a s = p' := by
    cases hp with
    | same eq => exact eq
    | starved _ _ code => exact absurd code (Config.not_starves hmode _)
  cases i with
  | run unit globals =>
    unfold start Machine.start
    dsimp only
    split
    · rw [← hidle]
      exact Machine.fail_traced _ _
    · rw [← hidle]
      exact hsame (Machine.enter_shadows (Machine.idle w vm) _ _ _)
  | call callee args =>
    unfold start Machine.startCall
    rw [← hidle]
    exact hsame (Machine.call_shadows (Machine.idle w vm) callee args)

lemma Invocation.start_leaves (i : Invocation) (w : World) (hmode : vm.config.mode = .tracing) :
    (i.start w vm).Leaves w.attachments vm.stats :=
  Progress.leaves_of_traced (i.start_traced w hmode w.attachments vm.stats)

end Machines

/-! ### Hosts whose interpreters trace -/

namespace Process

/-- What a host may do while its interpreters trace: anything but quicken a unit, forget counts,
make an interpreter adapt that is at work, or begin an execution that adapts. -/
def Tolerates (p : Process) : Action → Prop
  | .quicken .. | .resetStats _ => False
  | .setMode _ mode => mode = .tracing ∨ p.runs = []
  | .invoke v _ => (p.vmAt v).config.mode = .tracing
  | _ => True

/-- Actions all of which are tolerated when their turn comes. -/
def Interlude (p : Process) : List Action → Prop
  | [] => True
  | a :: as => p.Tolerates a ∧ (p.perform a).Interlude as

/-- An execution under way traces. -/
structure Traces (p : Process) (r : Run) : Prop where
  there : r.vm < p.vms.size
  mode : (p.vmAt r.vm).config.mode = .tracing
  frames : ∀ f ∈ r.frames, f.quick = false

/-- What has been learnt about the units that were there, and what the interpreters that were there
have counted, is as before. -/
structure Untouched (p p' : Process) : Prop where
  units : p.world.attachments.size ≤ p'.world.attachments.size
  learnt : ∀ u < p.world.attachments.size, p'.world.attachmentAt u = p.world.attachmentAt u
  vms : p.vms.size ≤ p'.vms.size
  counted : ∀ v < p.vms.size, (p'.vmAt v).stats = (p.vmAt v).stats

variable {p p' p'' : Process}

lemma Untouched.refl (p : Process) : Untouched p p :=
  ⟨le_rfl, fun _ _ => rfl, le_rfl, fun _ _ => rfl⟩

lemma Untouched.trans (ha : Untouched p p') (hb : Untouched p' p'') : Untouched p p'' where
  units := ha.units.trans hb.units
  learnt u hu := (hb.learnt u (hu.trans_le ha.units)).trans (ha.learnt u hu)
  vms := ha.vms.trans hb.vms
  counted v hv := (hb.counted v (hv.trans_le ha.vms)).trans (ha.counted v hv)

/-- All executions trace after an action, and nothing that has been learnt is touched by it. -/
structure Passes (p p' : Process) : Prop where
  traces : ∀ r ∈ p'.runs, p'.Traces r
  untouched : Untouched p p'

lemma Passes.refl (hp : ∀ r ∈ p.runs, p.Traces r) : Passes p p := ⟨hp, .refl p⟩

/-- The host changes the heap. -/
lemma passes_heap (hp : ∀ r ∈ p.runs, p.Traces r) (heap : Heap) :
    Passes p { p with world := { p.world with heap } } :=
  ⟨fun r hr => ⟨(hp r hr).there, (hp r hr).mode, (hp r hr).frames⟩, le_rfl, fun _ _ => rfl, le_rfl,
    fun _ _ => rfl⟩

lemma passes_newUnit (hp : ∀ r ∈ p.runs, p.Traces r) (u : CodeUnit) :
    Passes p { p with world := (p.world.newUnit u).2 } := by
  refine ⟨fun r hr => ⟨(hp r hr).there, (hp r hr).mode, (hp r hr).frames⟩, ?_, fun k hk => ?_,
    le_rfl, fun _ _ => rfl⟩
  · show p.world.attachments.size ≤ (p.world.attachments.push {}).size
    rw [Array.size_push]
    omega
  · show (p.world.attachments.push {}).getD k default = _
    rw [getD_push, if_neg (by omega)]
    rfl

lemma passes_newVm (hp : ∀ r ∈ p.runs, p.Traces r) (vm : Vm) (heap : Heap) :
    Passes p { p with world := { p.world with heap }, vms := p.vms.push vm } := by
  have hget {v : Nat} (hv : v < p.vms.size) : (p.vms.push vm).getD v default = p.vmAt v := by
    rw [getD_push, if_neg (by omega)]
    rfl
  have hsize : p.vms.size ≤ (p.vms.push vm).size := by
    rw [Array.size_push]
    omega
  refine ⟨fun r hr => ⟨(hp r hr).there.trans_le hsize, ?_, (hp r hr).frames⟩, le_rfl,
    fun _ _ => rfl, hsize, fun v hv => ?_⟩
  · show ((p.vms.push vm).getD r.vm default).config.mode = .tracing
    rw [hget (hp r hr).there]
    exact (hp r hr).mode
  · show ((p.vms.push vm).getD v default).stats = _
    rw [hget hv]

/-- An interpreter is changed beside what it has counted, and is not made to adapt at work. -/
lemma passes_modify (hp : ∀ r ∈ p.runs, p.Traces r) (v : Nat) {f : Vm → Vm}
    (hstats : ∀ x, (f x).stats = x.stats)
    (hmode : p.runs = [] ∨ ∀ x, x.config.mode = .tracing → (f x).config.mode = .tracing) :
    Passes p { p with vms := p.vms.modify v f } := by
  have hget (k : Nat) : vmAt { p with vms := p.vms.modify v f } k =
      if v = k ∧ k < p.vms.size then f (p.vmAt k) else p.vmAt k :=
    getD_modify ..
  have hsize : (p.vms.modify v f).size = p.vms.size := Array.size_modify ..
  refine ⟨fun r hr => ?_, le_rfl, fun _ _ => rfl, hsize.ge, fun k _ => ?_⟩
  · change r ∈ p.runs at hr
    refine ⟨hsize ▸ (hp r hr).there, ?_, (hp r hr).frames⟩
    rw [hget]
    rcases hmode with hnone | hkeeps
    · rw [hnone] at hr
      exact absurd hr List.not_mem_nil
    · split
      · exact hkeeps _ (hp r hr).mode
      · exact (hp r hr).mode
  · rw [hget]
    split
    · exact hstats _
    · rfl

/-- An execution that traces goes on, or is begun. -/
lemma passes_settle (hp : ∀ r ∈ p.runs, p.Traces r) {v : Nat} {x : Vm} (hx : p.vms[v]? = some x)
    {rest : List Run} (hrest : ∀ r ∈ rest, r ∈ p.runs) {out : Progress}
    (hout : out.Leaves p.world.attachments x.stats) : Passes p (p.settle v rest out) := by
  have hv : v < p.vms.size := (Array.getElem?_eq_some_iff.mp hx).1
  have hsize : (p.settle v rest out).vms.size = p.vms.size := Array.size_setIfInBounds ..
  have hmode (k : Nat) (hk : (p.vmAt k).config.mode = .tracing ∨ v = k) :
      ((p.settle v rest out).vmAt k).config.mode = .tracing := by
    rw [vmAt_settle]
    split
    · exact hout.static.mode
    · next hne =>
      rcases hk with hk | rfl
      · exact hk
      · exact absurd ⟨rfl, hv⟩ hne
  have hold (r : Run) (hr : r ∈ rest) : (p.settle v rest out).Traces r := by
    have htraces := hp r (hrest r hr)
    exact ⟨hsize ▸ htraces.there, hmode _ (.inl htraces.mode), htraces.frames⟩
  refine ⟨fun r hr => ?_, ?_, fun u _ => ?_, hsize.ge, fun k _ => ?_⟩
  · cases out with
    | running m =>
      rcases List.mem_cons.mp hr with rfl | hr
      · exact ⟨hsize ▸ hv, hmode v (.inr rfl), hout.static.frames⟩
      · exact hold r hr
    | returned m value => exact hold r hr
    | failed m e => exact hold r hr
  · show p.world.attachments.size ≤ out.machine.attachments.size
    rw [hout.attachments]
  · show out.machine.attachments.getD u default = _
    rw [hout.attachments]
    rfl
  · rw [vmAt_settle]
    split
    · next hk => rw [hout.stats, ← hk.1, vmAt_of_getElem? hx]
    · rfl

/-- A tolerated action touches nothing that has been learnt. -/
lemma perform_passes (hp : ∀ r ∈ p.runs, p.Traces r) {a : Action} (ha : p.Tolerates a) :
    Passes p (p.perform a) := by
  cases a with
  | request r => exact passes_heap hp _
  | addUnit code =>
    dsimp only [perform]
    split
    · next u _ => exact passes_newUnit hp u
    · exact .refl hp
  | quicken unit limit => exact absurd ha id
  | newVm config =>
    dsimp only [perform]
    split
    · exact passes_newVm hp _ _
    · exact .refl hp
  | setMode v mode =>
    refine passes_modify hp v (fun _ => rfl) ?_
    rcases ha with hmode | hnone
    · exact .inr fun _ _ => hmode
    · exact .inl hnone
  | resetStats v => exact absurd ha id
  | watch v observed => exact passes_modify hp v (fun _ => rfl) (.inr fun _ h => h)
  | invoke v i =>
    dsimp only [perform]
    split
    · next x hx =>
      have hmode : x.config.mode = .tracing := vmAt_of_getElem? hx ▸ ha
      exact passes_settle hp hx (fun _ hr => hr) (i.start_leaves p.world hmode)
    · exact .refl hp
  | step =>
    rcases hruns : p.runs with _ | ⟨r, rest⟩
    · simp only [perform, hruns]
      exact .refl hp
    have htraces : p.Traces r := hp r (by rw [hruns]; exact List.mem_cons_self)
    have hx : p.vms[r.vm]? = some (p.vmAt r.vm) := by
      rw [vmAt, Array.getD_eq_getD_getElem?, Array.getElem?_eq_getElem htraces.there]
      rfl
    have hstatic : Machine.Static ⟨p.world.heap, p.world.attachments, p.vmAt r.vm, r.frames⟩ :=
      ⟨htraces.mode, htraces.frames⟩
    rw [perform_step hruns hx]
    refine passes_settle hp hx (fun k hk => ?_) hstatic.step
    rw [hruns]
    exact List.mem_cons_of_mem r hk

lemma after_passes (hp : ∀ r ∈ p.runs, p.Traces r) {as : List Action} (has : p.Interlude as) :
    Passes p (p.after as) := by
  induction as generalizing p with
  | nil => exact .refl hp
  | cons a as ih =>
    have hfirst := perform_passes hp has.1
    have hrest := ih hfirst.traces has.2
    exact ⟨hrest.traces, hfirst.untouched.trans hrest.untouched⟩

/-- **Tracing touches nothing that has been learnt.** An execution that traces leaves all
attachments and counts as they were, and its outcome does not depend on them. So as long as
everything that a host runs traces, every unit and every count stays where it was. -/
theorem tracing_touches_nothing (w : World) (vm : Vm) (hmode : vm.config.mode = .tracing)
    (i : Invocation) (n : Nat) :
    (∀ e, (i.start w vm).run n = some e →
      e.attachments = w.attachments ∧ e.vm.stats = vm.stats) ∧
    (∀ a s, ((i.start ⟨w.heap, a⟩ { vm with stats := s }).run n).map Machine.Ending.seen =
      ((i.start w vm).run n).map Machine.Ending.seen) ∧
    ∀ p : Process, p.runs = [] → ∀ as, p.Interlude as → Untouched p (p.after as) := by
  have hleaves := i.start_leaves w hmode
  refine ⟨fun e he => ?_, fun a s => ?_, fun p hnone as has => ?_⟩
  · have hself := Progress.run_traced hleaves.static w.attachments vm.stats n
    rw [i.start_traced w hmode] at hself
    change (i.start w vm).run n = _ at hself
    rw [he, Option.map_some, Option.some.injEq] at hself
    rw [hself]
    exact ⟨rfl, rfl⟩
  · rw [← i.start_traced w hmode, Progress.run_traced hleaves.static, Option.map_map]
    rfl
  · refine (after_passes (fun r hr => ?_) has).untouched
    rw [hnone] at hr
    exact absurd hr List.not_mem_nil

/-- All sites of a unit are specialized. The interpreter that did it traces the unit where its
global is a text, and goes back to adapting. -/
theorem tracing_touches_nothing_specialized :
    let p := ({} : Process).after doubling
    let traced := (p.vmAt 0).setMode .tracing
    let as := .setMode 0 .tracing :: runFor 4 0 0 ⟨3, "texts"⟩ ++ [.setMode 0 .adaptive]
    ((p.vmAt 0).stats.loadGlobal.success = 2 ∧ (p.vmAt 0).stats.binaryAdd.success = 1) ∧
      (∃ e, ((Invocation.run 0 ⟨3, "texts"⟩).start p.world traced).run 4 = some e ∧
        e.attachments = p.world.attachments ∧ e.vm.stats = traced.stats) ∧
      p.Interlude as ∧ Untouched p (p.after as) := by
  intro p traced as
  have hends : (((Invocation.run 0 ⟨3, "texts"⟩).start p.world traced).run 4).isSome := by
    decide +kernel
  have hnone : p.runs = [] := List.eq_nil_of_length_eq_zero (by decide +kernel)
  have htraces : ((p.perform (.setMode 0 .tracing)).vmAt 0).config.mode = .tracing := by
    decide +kernel
  have has : p.Interlude as :=
    ⟨.inl rfl, htraces, trivial, trivial, trivial, trivial,
      .inr (List.eq_nil_of_length_eq_zero (by decide +kernel)), trivial⟩
  obtain ⟨e, he⟩ := Option.isSome_iff_exists.mp hends
  obtain ⟨hends, -, hinterlude⟩ :=
    tracing_touches_nothing p.world traced rfl (.run 0 ⟨3, "texts"⟩) 4
  exact ⟨by decide +kernel, ⟨e, he, hends e he⟩, has, hinterlude p hnone as has⟩

end Process

end AdaptiveVM
