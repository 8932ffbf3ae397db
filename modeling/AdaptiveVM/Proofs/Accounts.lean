import AdaptiveVM.Proofs.Isolation
import AdaptiveVM.Proofs.WarmUps

/-!
Warm-ups are accounted for.

Every warm-up of a unit that is not quickened is one tick, and the threshold is reached at a tick
or not at all. So a unit that only one interpreter warms up has as many warm-ups behind it as it
counts, and a whole threshold more for every time it could not be quickened; and once it is
quickened it counts the threshold, for good.
-/

namespace AdaptiveVM

/-- The host is told that there was not the memory to go on. -/
def Reply.outOfMemory : Reply → Bool
  | .ended (.error (.limit (.memory ..))) => true
  | _ => false

/-- One warm-up: the interpreter, by its place, the unit, whether there is such a unit, and whether
there was not the memory to quicken it. -/
structure WarmUp where
  vm : Nat
  unit : Nat
  there : Bool
  failed : Bool
  deriving DecidableEq

namespace WarmUp

def ticks (u : Nat) (log : List WarmUp) : Nat := log.countP (·.unit == u)

def failures (u : Nat) (log : List WarmUp) : Nat := log.countP fun w => w.unit == u && w.failed

end WarmUp

/-- How warm a unit is, and whether it is quickened. -/
def Attachment.heat (x : Attachment) : UInt32 × Bool := (x.warmup, x.quickened.isSome)

lemma Attachment.warmup_of_heat {x x' : Attachment} (h : x'.heat = x.heat) :
    x'.warmup = x.warmup :=
  congrArg Prod.fst h

lemma Attachment.isSome_of_heat {x x' : Attachment} (h : x'.heat = x.heat) :
    x'.quickened.isSome = x.quickened.isSome :=
  congrArg Prod.snd h

/-! ### One warm-up -/

/-- What a warm-up comes to, for the unit and for the counts of the interpreter: there is nothing
left to do, or the unit has one more tick, is quickened at it, or fails to be. -/
inductive Tick (c : Config) (x : Attachment) (s : Stats) : Attachment → Stats → Bool → Prop where
  | still {s' : Stats} (quickened : x.quickened.isSome = true)
      (units : s'.quickenedUnits = s.quickenedUnits)
      (failures : s'.quickenFailures = s.quickenFailures) : Tick c x s x s' false
  | tick {s' : Stats} (quickened : x.quickened = none) (below : x.tick.warmup < c.warmupThreshold)
      (units : s'.quickenedUnits = s.quickenedUnits)
      (failures : s'.quickenFailures = s.quickenFailures) : Tick c x s x.tick s' false
  | install {s' : Stats} {q : Quickened} (quickened : x.quickened = none)
      (reached : c.warmupThreshold ≤ x.tick.warmup)
      (units : s'.quickenedUnits = s.quickenedUnits + 1)
      (failures : s'.quickenFailures = s.quickenFailures) : Tick c x s (x.tick.install q) s' false
  | cool {s' : Stats} (quickened : x.quickened = none)
      (reached : c.warmupThreshold ≤ x.tick.warmup)
      (units : s'.quickenedUnits = s.quickenedUnits)
      (failures : s'.quickenFailures = s.quickenFailures + 1) : Tick c x s x.tick.cool s' true

namespace Machine.Heats

variable {h : Heap} {a : Array Attachment} {vm : Vm} {u : Nat} {out : Progress}

lemma attachment_ne (hh : Heats h a vm (some u) out) {k : Nat} (hk : k ≠ u) :
    out.machine.attachments.getD k default = a.getD k default := by
  have hwarm : (Machine.warmUp h a vm u).2.1.getD k default = a.getD k default := by
    rcases warmUp_outcomes h a vm u with
      ⟨-, he⟩ | ⟨-, -, he⟩ | ⟨-, -, ⟨-, he⟩ | ⟨-, he⟩ | ⟨-, -, he⟩⟩ <;> rw [he]
    · rw [getD_modify, if_neg fun hc => hk hc.1.symm]
    · rw [getD_modify, if_neg fun hc => hk hc.1.symm, getD_modify,
        if_neg fun hc => hk hc.1.symm]
    · rw [getD_modify, if_neg fun hc => hk hc.1.symm, getD_modify,
        if_neg fun hc => hk hc.1.symm]
  cases hh with
  | warm result attachments levels quick => exact attachments ▸ hwarm
  | failed result attachments levels frames => exact attachments ▸ hwarm

lemma of_tracing {u? : Option Nat} (hh : Heats h a vm u? out) (hmode : vm.config.mode = .tracing) :
    out.machine.attachments = a ∧ vm.Levels out.machine.vm := by
  have hidle (u : Nat) : Machine.warmUp h a vm u = (.ok false, a, vm) := if_pos hmode
  cases hh with
  | cold attachments levels quick => exact ⟨attachments, levels⟩
  | warm result attachments levels quick =>
    rw [hidle] at attachments levels
    exact ⟨attachments, levels⟩
  | failed result attachments levels frames =>
    rw [hidle] at attachments levels
    exact ⟨attachments, levels⟩

/-- **What a warm-up comes to.** -/
lemma tick (hh : Heats h a vm (some u) out) (hmode : vm.config.mode ≠ .tracing) (hu : u < a.size) :
    Tick vm.config (a.getD u default) vm.stats (out.machine.attachments.getD u default)
      out.machine.vm.stats out.reply.outOfMemory := by
  have htick (f : Attachment → Attachment) :
      ((a.modify u Attachment.tick).modify u f).getD u default =
        f (a.getD u default).tick := by
    rw [getD_modify, if_pos ⟨rfl, by rw [Array.size_modify]; exact hu⟩, getD_modify,
      if_pos ⟨rfl, hu⟩]
  have hticked : (a.modify u Attachment.tick).getD u default = (a.getD u default).tick := by
    rw [getD_modify, if_pos ⟨rfl, hu⟩]
  have hcases := warmUp_outcomes h a vm u
  simp only [hticked] at hcases
  cases hh with
  | @warm u b m result attachments levels quick =>
    show Tick _ _ _ (m.attachments.getD u default) m.vm.stats false
    rcases hcases with
      ⟨htracing, -⟩ | ⟨-, hsome, he⟩ | ⟨-, hnone, ⟨hlt, he⟩ | ⟨hle, he⟩ | ⟨-, -, he⟩⟩
    · exact absurd htracing hmode
    · rw [he] at attachments levels
      rw [attachments]
      exact .still hsome levels.quickened levels.failures
    · rw [he] at attachments levels
      rw [attachments, hticked]
      exact .tick hnone hlt levels.quickened levels.failures
    · rw [he] at attachments levels
      rw [attachments, htick]
      exact .install hnone hle levels.quickened levels.failures
    · rw [he] at result
      cases result
  | @failed u e m result attachments levels frames =>
    rcases hcases with
      ⟨htracing, -⟩ | ⟨-, -, he⟩ | ⟨-, hnone, ⟨-, he⟩ | ⟨-, he⟩ | ⟨hle, -, he⟩⟩
    · exact absurd htracing hmode
    · rw [he] at result
      cases result
    · rw [he] at result
      cases result
    · rw [he] at result
      cases result
    · rw [he] at result attachments levels
      cases result
      show Tick _ _ _ (m.attachments.getD u default) m.vm.stats true
      rw [attachments, htick]
      exact .cool hnone hle levels.quickened levels.failures

lemma quick_frames {u? : Option Nat} (hh : Heats h a vm u? out)
    (hu : ∀ u, u? = some u → vm.config.mode ≠ .tracing → u < a.size) :
    Quick out.machine.attachments out.machine.frames := by
  cases hh with
  | cold attachments levels quick => exact quick
  | warm result attachments levels quick => exact quick (hu _ rfl)
  | @failed u e m result attachments levels frames =>
    rw [show (Progress.failed m e).machine.frames = [] from frames]
    exact .nil _

end Machine.Heats

namespace Process

variable {p : Process}

/-- The interpreter that an action lets go on, and the unit that it warms up. Interpreters that
trace warm nothing up. -/
def warmed? (p : Process) : Action → Option (Nat × Nat)
  | .invoke vm invocation =>
    match p.vms[vm]? with
    | some x =>
      if x.config.mode = .tracing then none else (invocation.warms? p.world x).map (vm, ·)
    | none => none
  | .step =>
    match p.runs, p.machine? with
    | r :: _, some m => if m.vm.config.mode = .tracing then none else m.warms?.map (r.vm, ·)
    | _, _ => none
  | _ => none

def warmUp? (p : Process) (a : Action) : Option WarmUp :=
  (p.warmed? a).map fun w =>
    ⟨w.1, w.2, w.2 < p.world.heap.units.size, (p.reply a).outOfMemory⟩

def warmUps (p : Process) : List Action → List WarmUp
  | [] => []
  | a :: as => (p.warmUp? a).toList ++ (p.perform a).warmUps as

/-- All frames read streams that are there. -/
def Quick (p : Process) : Prop :=
  ∀ r ∈ p.runs, Machine.Quick p.world.attachments r.frames

/-- The executions beside the one that an action begins or lets go on. -/
def others (p : Process) : Action → List Run
  | .step => p.runs.tail
  | _ => p.runs

/-! ### An interpreter goes on -/

/-- The attachments after the site has been executed that an action executes, if any: the event has
happened that the innermost frame finds there. -/
inductive Learns (p : Process) (a : Action) (k : Nat) : Array Attachment → Prop where
  | nothing (visit : p.visit? a = none) : Learns p a k p.world.attachments
  | site {m : Machine} {f : Frame} {q : Quickened} {fam : Family} {t : Trial}
      (machine : p.machine? = some m) (visits : m.Visits f q fam t)
      (visit : p.visit? a = some ⟨k, f.unit, f.position,
        (t.event (p.vmAt k).config (q.counter f.position)).outcome⟩) :
      Learns p a k (p.visited k f.unit f.position fam t).world.attachments

/-- An action lets an interpreter go on: it may execute a site, and then warms up a unit or none. -/
structure Goes (p : Process) (a : Action) (k : Nat) (x : Vm) (mid : Array Attachment)
    (u? : Option Nat) (out : Progress) : Prop where
  vm : p.vms[k]? = some x
  eq : p.perform a = p.settle k (p.others a) out
  reply : p.reply a = out.reply
  warmed : p.warmed? a = if x.config.mode = .tracing then none else u?.map (k, ·)
  learns : p.Learns a k mid
  heats : Machine.Heats p.world.heap mid x u? out

lemma invoke_goes {k : Nat} {x : Vm} (hx : p.vms[k]? = some x) (i : Invocation) :
    ∃ u? out, p.Goes (.invoke k i) k x p.world.attachments u? out := by
  refine ⟨i.warms? p.world x, i.start p.world x, hx, by simp only [perform, others, hx],
    by simp only [reply, hx], by simp only [warmed?, hx], .nothing rfl, ?_⟩
  have hidle : Machine.Quick (Machine.idle p.world x).attachments (Machine.idle p.world x).frames :=
    .nil _
  cases i with
  | run unit globals =>
    dsimp only [Invocation.start, Invocation.warms?, Machine.start]
    by_cases hargs : (p.world.heap.unitAt unit).argcount = 0
    · have henter := Machine.Heats.enter hidle unit globals
        (Binding.slots (p.world.heap.unitAt unit).nlocals.toNat [])
      simp only [hargs, ne_eq, not_true_eq_false, true_and, if_false]
      exact henter
    · rw [if_neg fun hc => hargs hc.1, if_pos hargs]
      exact Machine.Heats.fail _ (Machine.idle p.world x) _
  | call callee args => exact Machine.call_heats hidle callee args

lemma step_goes (hp : p.world.Sound) (hq : p.Quick) {r : Run} {rest : List Run}
    (hruns : p.runs = r :: rest) {x : Vm} (hx : p.vms[r.vm]? = some x) :
    ∃ mid u? out, p.Goes .step r.vm x mid u? out := by
  have hmachine : p.machine? = some ⟨p.world.heap, p.world.attachments, x, r.frames⟩ := by
    simp only [machine?, hruns, hx, Option.map_some]
  have hgoes {mid : Array Attachment} (hlearns : p.Learns .step r.vm mid)
      (hheats : Machine.Heats p.world.heap mid x
        (Machine.warms? ⟨p.world.heap, p.world.attachments, x, r.frames⟩)
        (Machine.step ⟨p.world.heap, p.world.attachments, x, r.frames⟩)) :
      p.Goes .step r.vm x mid (Machine.warms? ⟨p.world.heap, p.world.attachments, x, r.frames⟩)
        (Machine.step ⟨p.world.heap, p.world.attachments, x, r.frames⟩) := by
    refine ⟨hx, ?_, by simp only [reply, hmachine], by simp only [warmed?, hruns, hmachine],
      hlearns, hheats⟩
    rw [perform_step hruns hx, others, hruns, List.tail_cons]
  have hframes : Machine.Quick p.world.attachments r.frames :=
    hq r (by rw [hruns]; exact List.mem_cons_self)
  rcases Machine.step_heats ⟨p.world.heap, p.world.attachments, x, r.frames⟩ hp hframes with
    ⟨hsite, hheats⟩ | ⟨f, q, fam, t, hvisits, hheats⟩
  · refine ⟨_, _, _, hgoes (.nothing ?_) hheats⟩
    simp only [visit?, hruns, hmachine, hsite, Option.map_none, Option.bind_fun_none]
  · have hvisit := (step_of_visits hruns hx hvisits).2.1
    have hmid : (p.visited r.vm f.unit f.position fam t).world.attachments =
        (Machine.visit p.world.attachments x f.unit f.position fam t).1 := by
      rw [visited, vmAt_of_getElem? hx]
    refine ⟨_, _, _, hgoes (.site hmachine hvisits hvisit) ?_⟩
    rw [hmid]
    exact hheats

/-- No interpreter goes on: units are as warm as they were, apart from one that the host quickens,
and nothing is counted, apart from counts that it resets. -/
structure Rests (p : Process) (a : Action) : Prop where
  runs : (p.perform a).runs = p.runs
  heat : ∀ u, (∀ limit, a ≠ .quicken u limit) →
    ((p.perform a).world.attachmentAt u).heat = (p.world.attachmentAt u).heat
  units : ∀ v, a ≠ .resetStats v →
    ((p.perform a).vmAt v).stats.quickenedUnits = (p.vmAt v).stats.quickenedUnits
  failures : ∀ v, a ≠ .resetStats v →
    ((p.perform a).vmAt v).stats.quickenFailures = (p.vmAt v).stats.quickenFailures

lemma Rests.of_eq {a : Action} (h : p.perform a = p) : p.Rests a := by
  constructor <;> intros <;> rw [h]

lemma rests_modify {a : Action} {k : Nat} {f : Vm → Vm}
    (h : p.perform a = { p with vms := p.vms.modify k f })
    (hf : a ≠ .resetStats k → ∀ x, (f x).stats = x.stats) : p.Rests a := by
  have hstats (v : Nat) (hv : a ≠ .resetStats v) :
      ((p.perform a).vmAt v).stats = (p.vmAt v).stats := by
    rw [h, vmAt, getD_modify]
    split
    · next hc =>
      obtain ⟨rfl, -⟩ := hc
      exact hf hv _
    · rfl
  refine ⟨by rw [h], fun u _ => by rw [h], fun v hv => ?_, fun v hv => ?_⟩
  · rw [hstats v hv]
  · rw [hstats v hv]

lemma addUnit_rests (code : Assembler) : p.Rests (.addUnit code) := by
  rcases hb : code.build with e | cu
  · exact .of_eq (by simp only [perform, hb])
  · have hperform : p.perform (.addUnit code) = { p with world := (p.world.newUnit cu).2 } := by
      simp only [perform, hb]
    refine ⟨by rw [hperform], fun u _ => ?_, fun v _ => by rw [hperform]; rfl,
      fun v _ => by rw [hperform]; rfl⟩
    rw [hperform]
    show ((p.world.attachments.push {}).getD u default).heat = _
    rw [getD_push]
    split
    · next hu =>
      rw [World.attachmentAt, hu, getD_of_size_le le_rfl]
      rfl
    · rfl

lemma quicken_rests (unit limit : Nat) : p.Rests (.quicken unit limit) := by
  refine ⟨rfl, fun u hu => ?_, fun v _ => rfl, fun v _ => rfl⟩
  have hne : unit ≠ u := fun hc => hu limit (by rw [hc])
  show ((p.world.attachments.setIfInBounds unit _).getD u default).heat = _
  rw [getD_setIfInBounds, if_neg fun hc => hne hc.1]
  rfl

lemma newVm_rests (config : Config) : p.Rests (.newVm config) := by
  rcases hc : config.validate with e | c
  · exact .of_eq (by simp only [perform, hc])
  · have hvms : (p.perform (.newVm config)).vms =
        p.vms.push (Vm.create c p.world.heap).1 := by
      simp only [perform, hc]
    have hattachments : (p.perform (.newVm config)).world.attachments = p.world.attachments := by
      simp only [perform, hc]
    have hstats (v : Nat) : ((p.perform (.newVm config)).vmAt v).stats = (p.vmAt v).stats := by
      rw [vmAt, hvms, getD_push]
      split
      · next hv =>
        rw [vmAt, hv, getD_of_size_le le_rfl]
        rfl
      · rfl
    refine ⟨by simp only [perform, hc], fun u _ => ?_, fun v _ => by rw [hstats],
      fun v _ => by rw [hstats]⟩
    rw [World.attachmentAt, hattachments]
    rfl

/-- **What an action does**: an interpreter goes on, or all rest. -/
lemma perform_goes (hp : p.world.Sound) (hq : p.Quick) (a : Action) :
    (p.warmUp? a = none ∧ p.Rests a) ∨ ∃ k x mid u? out, p.Goes a k x mid u? out := by
  cases a with
  | request r => exact .inl ⟨rfl, rfl, fun _ _ => rfl, fun _ _ => rfl, fun _ _ => rfl⟩
  | addUnit code => exact .inl ⟨rfl, addUnit_rests code⟩
  | quicken unit limit => exact .inl ⟨rfl, quicken_rests unit limit⟩
  | newVm config => exact .inl ⟨rfl, newVm_rests config⟩
  | setMode k mode => exact .inl ⟨rfl, rests_modify rfl fun _ _ => rfl⟩
  | resetStats k => exact .inl ⟨rfl, rests_modify rfl fun hk => absurd rfl hk⟩
  | watch k observed => exact .inl ⟨rfl, rests_modify rfl fun _ _ => rfl⟩
  | invoke k i =>
    rcases hx : p.vms[k]? with _ | x
    · exact .inl ⟨by simp only [warmUp?, warmed?, hx, Option.map_none],
        .of_eq (by simp only [perform, hx])⟩
    · obtain ⟨u?, out, hgoes⟩ := invoke_goes hx i
      exact .inr ⟨k, x, _, u?, out, hgoes⟩
  | step =>
    rcases hruns : p.runs with _ | ⟨r, rest⟩
    · exact .inl ⟨by simp only [warmUp?, warmed?, hruns, Option.map_none],
        .of_eq (by simp only [perform, hruns])⟩
    rcases hx : p.vms[r.vm]? with _ | x
    · exact .inl ⟨by simp only [warmUp?, warmed?, machine?, hruns, hx, Option.map_none],
        .of_eq (by simp only [perform, machine?, hruns, hx, Option.map_none])⟩
    · obtain ⟨mid, u?, out, hgoes⟩ := step_goes hp hq hruns hx
      exact .inr ⟨r.vm, x, mid, u?, out, hgoes⟩

/-! ### What an action does to units -/

lemma heat_apply (x : Attachment) (i : Nat) (fam : Family) (ev : SiteEvent) :
    (x.apply i fam ev).heat = x.heat := by
  simp [Attachment.heat, Attachment.apply]

lemma Learns.heat {a : Action} {k : Nat} {mid : Array Attachment} (hl : p.Learns a k mid)
    (u : Nat) :
    (mid.getD u default).heat = (p.world.attachmentAt u).heat := by
  cases hl with
  | nothing visit => rfl
  | site machine visits visit =>
    show ((Machine.visit ..).1.getD u default).heat = _
    rw [Machine.visit, getD_modify]
    split
    · exact heat_apply ..
    · rfl

lemma Learns.size {a : Action} {k : Nat} {mid : Array Attachment} (hl : p.Learns a k mid) :
    mid.size = p.world.attachments.size := by
  cases hl with
  | nothing visit => rfl
  | site machine visits visit => exact Array.size_modify ..

lemma isSome_perform (hp : p.world.Sound) (a : Action) {u : Nat}
    (hu : (p.world.attachmentAt u).quickened.isSome = true) :
    ((p.perform a).world.attachmentAt u).quickened.isSome = true := by
  obtain ⟨q, hq⟩ := Option.isSome_iff_exists.mp hu
  rcases perform_stream hp a hq with ⟨-, hafter⟩ | ⟨k, i, fam, t, -, -, -, hafter, -⟩ <;>
    rw [hafter] <;> rfl

/-- **Frames keep reading streams that are there**, as long as only code is executed that is. -/
lemma perform_quick (hp : p.world.Sound) (hq : p.Quick) (a : Action)
    (hthere : ∀ w, p.warmUp? a = some w → w.there = true) :
    (p.perform a).Quick := by
  rcases perform_goes hp hq a with ⟨-, hrests⟩ | ⟨k, x, mid, u?, out, hgoes⟩
  · intro r hr
    rw [hrests.runs] at hr
    exact (hq r hr).mono fun u => isSome_perform hp a
  have hothers : ∀ r ∈ p.others a, r ∈ p.runs := by
    intro r hr
    cases a with
    | step => exact List.mem_of_mem_tail hr
    | _ => exact hr
  have hold : ∀ r ∈ p.others a, Machine.Quick (p.perform a).world.attachments r.frames :=
    fun r hr => (hq r (hothers r hr)).mono fun u => isSome_perform hp a
  have hnew : Machine.Quick out.machine.attachments out.machine.frames := by
    refine hgoes.heats.quick_frames fun u hu hmode => ?_
    have hlt := hthere _ (by rw [warmUp?, hgoes.warmed, if_neg hmode, hu]; rfl)
    rw [hgoes.learns.size, hp.size]
    exact of_decide_eq_true hlt
  rw [hgoes.eq] at hold ⊢
  cases out with
  | running m =>
    intro r hr
    rcases List.mem_cons.mp hr with rfl | hr
    · exact hnew
    · exact hold r hr
  | returned m v => exact hold
  | failed m e => exact hold

def SameCounts (p p' : Process) (v : Nat) : Prop :=
  (p'.vmAt v).stats.quickenedUnits = (p.vmAt v).stats.quickenedUnits ∧
    (p'.vmAt v).stats.quickenFailures = (p.vmAt v).stats.quickenFailures

/-- An interpreter has warmed up a unit, and nothing else has happened to units. -/
structure Warms (p : Process) (a : Action) (w : WarmUp) : Prop where
  vm : w.vm < p.vms.size
  there : w.unit < p.world.heap.units.size
  tick : ∃ x : Attachment, x.heat = (p.world.attachmentAt w.unit).heat ∧
    Tick (p.vmAt w.vm).config x (p.vmAt w.vm).stats ((p.perform a).world.attachmentAt w.unit)
      ((p.perform a).vmAt w.vm).stats w.failed
  heat : ∀ u ≠ w.unit, ((p.perform a).world.attachmentAt u).heat = (p.world.attachmentAt u).heat
  counts : ∀ v ≠ w.vm, SameCounts p (p.perform a) v

/-- **What an action does to units**: one is warmed up, or none. -/
lemma perform_warms (hp : p.world.Sound) (hq : p.Quick) (a : Action)
    (hthere : ∀ w, p.warmUp? a = some w → w.there = true) :
    (p.warmUp? a = none ∧
      (∀ u, (∀ limit, a ≠ .quicken u limit) →
        ((p.perform a).world.attachmentAt u).heat = (p.world.attachmentAt u).heat) ∧
      ∀ v, a ≠ .resetStats v → SameCounts p (p.perform a) v) ∨
    ∃ w, p.warmUp? a = some w ∧ p.Warms a w := by
  rcases perform_goes hp hq a with ⟨hnone, hrests⟩ | ⟨k, x, mid, u?, out, hgoes⟩
  · exact .inl ⟨hnone, hrests.heat, fun v hv => ⟨hrests.units v hv, hrests.failures v hv⟩⟩
  have hk : k < p.vms.size := (Array.getElem?_eq_some_iff.mp hgoes.vm).1
  have hx : p.vmAt k = x := vmAt_of_getElem? hgoes.vm
  have hvm (v : Nat) : (p.perform a).vmAt v = if k = v then out.machine.vm else p.vmAt v := by
    rw [hgoes.eq, vmAt_settle]
    by_cases hv : k = v
    · rw [if_pos ⟨hv, hv ▸ hk⟩, if_pos hv]
    · rw [if_neg fun hc => hv hc.1, if_neg hv]
  have hattachment (u : Nat) : (p.perform a).world.attachmentAt u =
      out.machine.attachments.getD u default := by
    rw [hgoes.eq]
    rfl
  have hwarmUp : p.warmUp? a = if x.config.mode = .tracing then none else
      u?.map fun u => ⟨k, u, u < p.world.heap.units.size, out.reply.outOfMemory⟩ := by
    rw [warmUp?, hgoes.warmed, hgoes.reply]
    split
    · rfl
    · rw [Option.map_map]
      rfl
  -- without a warm-up, all that can have happened is an event at a site
  have hcold (hattachments : out.machine.attachments = mid) (hlevels : x.Levels out.machine.vm) :
      (∀ u, (∀ limit, a ≠ .quicken u limit) →
        ((p.perform a).world.attachmentAt u).heat = (p.world.attachmentAt u).heat) ∧
      ∀ v, a ≠ .resetStats v → SameCounts p (p.perform a) v := by
    refine ⟨fun u _ => ?_, fun v _ => ?_⟩
    · rw [hattachment, hattachments, hgoes.learns.heat]
    · rw [SameCounts, hvm]
      split
      · next hv =>
        rw [← hv, hx]
        exact ⟨hlevels.quickened, hlevels.failures⟩
      · exact ⟨rfl, rfl⟩
  by_cases hmode : x.config.mode = .tracing
  · rw [if_pos hmode] at hwarmUp
    obtain ⟨hattachments, hlevels⟩ := hgoes.heats.of_tracing hmode
    exact .inl ⟨hwarmUp, hcold hattachments hlevels⟩
  rw [if_neg hmode] at hwarmUp
  rcases u? with _ | u
  · cases hgoes.heats with
    | cold attachments levels quick => exact .inl ⟨hwarmUp, hcold attachments levels⟩
  · have hu : u < mid.size := by
      rw [hgoes.learns.size, hp.size]
      exact of_decide_eq_true (hthere _ hwarmUp)
    refine .inr ⟨_, hwarmUp, hk, hp.size ▸ hgoes.learns.size ▸ hu,
      ⟨mid.getD u default, hgoes.learns.heat u, ?_⟩, fun j hj => ?_, fun v hv => ?_⟩
    · dsimp only
      rw [hvm, if_pos rfl, hx, hattachment]
      exact hgoes.heats.tick hmode hu
    · rw [hattachment, hgoes.heats.attachment_ne hj, hgoes.learns.heat]
    · rw [SameCounts, hvm, if_neg fun hc => hv hc.symm]
      exact ⟨rfl, rfl⟩

end Process

/-! ### Accounts -/

lemma WarmUp.failures_append (u : Nat) (log : List WarmUp) (w : WarmUp) :
    failures u (log ++ [w]) = failures u log + if w.unit = u then w.failed.toNat else 0 := by
  rw [failures, List.countP_append]
  by_cases hu : w.unit = u
  · cases hf : w.failed <;> simp [failures, hu, hf]
  · simp [failures, hu]

/-- The warm-ups that a unit is quickened at. -/
def Config.hotness (c : Config) : Nat := max 1 c.warmupThreshold.toNat

/-- The log accounts for how warm a unit is. -/
structure Accounted (hotness u : Nat) (x : Attachment) (log : List WarmUp) : Prop where
  cold : x.quickened = none → x.warmup.toNat < hotness ∧
    WarmUp.ticks u log = x.warmup.toNat + hotness * WarmUp.failures u log
  hot : x.quickened.isSome = true → x.warmup.toNat = hotness ∧ ∃ w ∈ log, w.unit = u

namespace Accounted

variable {c : Config} {hotness u : Nat} {x x' : Attachment} {s s' : Stats} {log : List WarmUp}
  {failed : Bool}

lemma congr_heat (hb : Accounted hotness u x log) (hheat : x'.heat = x.heat) :
    Accounted hotness u x' log := by
  have hwarmup := Attachment.warmup_of_heat hheat
  have hsome := Attachment.isSome_of_heat hheat
  refine ⟨fun hnone => ?_, fun hsome' => ?_⟩
  · rw [hwarmup]
    refine hb.cold ?_
    rw [hnone] at hsome
    exact Option.not_isSome_iff_eq_none.mp (by rw [← hsome]; simp)
  · rw [hwarmup]
    exact hb.hot (hsome ▸ hsome')

lemma other (hb : Accounted hotness u x log) {w : WarmUp} (hw : w.unit ≠ u) :
    Accounted hotness u x (log ++ [w]) := by
  refine ⟨fun hnone => ?_, fun hsome => ?_⟩
  · simpa [WarmUp.ticks, WarmUp.failures, List.countP_append, hw] using hb.cold hnone
  · obtain ⟨hwarmup, w', hw', hu⟩ := hb.hot hsome
    exact ⟨hwarmup, w', List.mem_append_left _ hw', hu⟩

lemma of_absent (hb : Accounted hotness u x log) (hlog : ∀ w ∈ log, w.unit ≠ u) {hotness' : Nat}
    (hpos : 0 < hotness') : Accounted hotness' u x log := by
  refine ⟨fun hnone => ?_, fun hsome => ?_⟩
  · obtain ⟨-, hticks⟩ := hb.cold hnone
    have hzero : WarmUp.ticks u log = 0 := by
      rw [WarmUp.ticks, List.countP_eq_zero]
      intro w hw
      simpa using hlog w hw
    have hfailures : WarmUp.failures u log = 0 := by
      rw [WarmUp.failures, List.countP_eq_zero]
      intro w hw
      simp [hlog w hw]
    rw [hzero] at hticks
    have hwarmup : x.warmup.toNat = 0 := by omega
    rw [hwarmup, hzero, hfailures]
    exact ⟨hpos, rfl⟩
  · obtain ⟨-, w, hw, hu⟩ := hb.hot hsome
    exact absurd hu (hlog w hw)

lemma toNat_tick (h : x.warmup.toNat < c.hotness) :
    x.tick.warmup.toNat = x.warmup.toNat + 1 := by
  have hthreshold := c.warmupThreshold.toNat_lt
  have hsmall : x.warmup.toNat < 0xffffffff := by
    unfold Config.hotness at h
    omega
  have hne : x.warmup ≠ 0xffffffff := by
    intro hc
    rw [hc] at hsmall
    exact absurd hsmall (by decide)
  rw [Attachment.tick, if_neg hne]
  show (x.warmup + 1).toNat = _
  rw [UInt32.toNat_add]
  show (x.warmup.toNat + 1) % 4294967296 = _
  omega

lemma tick_eq_hotness (h : x.warmup.toNat < c.hotness) (hle : c.warmupThreshold ≤ x.tick.warmup) :
    x.warmup.toNat + 1 = c.hotness := by
  have htick := toNat_tick h
  rw [UInt32.le_iff_toNat_le] at hle
  unfold Config.hotness at h ⊢
  omega

/-- **One warm-up is accounted for.** -/
theorem tick (hb : Accounted c.hotness u x log) {w : WarmUp} (hw : w.unit = u)
    (ht : Tick c x s x' s' w.failed) : Accounted c.hotness u x' (log ++ [w]) := by
  have hmem : ∃ w' ∈ log ++ [w], w'.unit = u :=
    ⟨w, List.mem_append_right _ (List.mem_singleton_self _), hw⟩
  have hticks : WarmUp.ticks u (log ++ [w]) = WarmUp.ticks u log + 1 := by
    simp [WarmUp.ticks, List.countP_append, hw]
  have hfailures := WarmUp.failures_append u log w
  rw [if_pos hw] at hfailures
  generalize w.failed = failed at ht hfailures
  cases ht with
  | still hsome =>
    refine ⟨fun hnone => ?_, fun _ => ⟨(hb.hot hsome).1, hmem⟩⟩
    rw [hnone] at hsome
    cases hsome
  | tick hnone below =>
    obtain ⟨hlt, hcount⟩ := hb.cold hnone
    have htick := toNat_tick hlt
    have hbelow := UInt32.lt_iff_toNat_lt.mp below
    refine ⟨fun _ => ⟨?_, ?_⟩, fun hsome => ?_⟩
    · exact lt_of_lt_of_le hbelow (le_max_right ..)
    · rw [hticks, hfailures, hcount, htick]
      simp only [Bool.toNat_false, Nat.add_zero]
      omega
    · rw [show x.tick.quickened = none from hnone] at hsome
      cases hsome
  | @install _ q hnone reached =>
    obtain ⟨hlt, -⟩ := hb.cold hnone
    refine ⟨fun hnone' => ?_, fun _ => ⟨?_, hmem⟩⟩
    · cases hnone'
    · exact (toNat_tick hlt).trans (tick_eq_hotness hlt reached)
  | cool hnone reached =>
    obtain ⟨hlt, hcount⟩ := hb.cold hnone
    have hreached := tick_eq_hotness hlt reached
    refine ⟨fun _ => ⟨?_, ?_⟩, fun hsome => ?_⟩
    · exact lt_of_lt_of_le Nat.zero_lt_one (le_max_left ..)
    · rw [hticks, hfailures, hcount]
      show _ = 0 + c.hotness * (WarmUp.failures u log + 1)
      rw [Nat.mul_add, Nat.mul_one]
      omega
    · rw [show x.tick.cool.quickened = none from hnone] at hsome
      cases hsome

end Accounted

lemma Tick.counts {c : Config} {x x' : Attachment} {s s' : Stats} {failed : Bool}
    (ht : Tick c x s x' s' failed) :
    s'.quickenedUnits + x.quickened.isSome.toNat =
      s.quickenedUnits + x'.quickened.isSome.toNat ∧
    s'.quickenFailures = s.quickenFailures + failed.toNat := by
  cases ht with
  | still quickened units failures => exact ⟨by rw [units], failures⟩
  | tick quickened below units failures => exact ⟨by rw [units]; rfl, failures⟩
  | install quickened reached units failures =>
    refine ⟨?_, failures⟩
    rw [units, quickened]
    rfl
  | cool quickened reached units failures => exact ⟨by rw [units]; rfl, failures⟩

namespace Process

variable {own : Nat → Bool} {p p' : Process} {v : Nat} {log : List WarmUp}

/-- The units of some that are there. -/
def ownUnits (own : Nat → Bool) (p : Process) : Finset Nat :=
  (Finset.range p.world.heap.units.size).filter (own · = true)

/-- The log accounts for an interpreter's own units, and for what it has counted. -/
structure Audited (own : Nat → Bool) (p : Process) (v : Nat) (log : List WarmUp) : Prop where
  quick : p.Quick
  there : ∀ w ∈ log, w.unit < p.world.heap.units.size
  /-- The units are warmed up by nobody before the interpreter is there. -/
  present : ∀ w ∈ log, own w.unit = true → v < p.vms.size
  accounted : ∀ u, own u = true →
    Accounted (p.vmAt v).config.hotness u (p.world.attachmentAt u) log
  units : (p.vmAt v).stats.quickenedUnits =
    ∑ u ∈ ownUnits own p, (p.world.attachmentAt u).quickened.isSome.toNat
  failures : (p.vmAt v).stats.quickenFailures = ∑ u ∈ ownUnits own p, WarmUp.failures u log

lemma audited_empty (own : Nat → Bool) (v : Nat) : Audited own {} v [] where
  quick _ hr := absurd hr List.not_mem_nil
  there _ hw := absurd hw List.not_mem_nil
  present _ hw := absurd hw List.not_mem_nil
  accounted u _ := by
    rw [World.attachmentAt, getD_of_size_le (Nat.zero_le u)]
    refine ⟨fun _ => ⟨?_, rfl⟩, fun hsome => (by cases hsome)⟩
    exact lt_of_lt_of_le Nat.zero_lt_one (le_max_left ..)
  units := by
    rw [vmAt, getD_of_size_le (Nat.zero_le v)]
    rfl
  failures := by
    rw [vmAt, getD_of_size_le (Nat.zero_le v)]
    rfl

lemma ownUnits_subset (own : Nat → Bool) (p : Process) (a : Action) :
    ownUnits own p ⊆ ownUnits own (p.perform a) := by
  intro u hu
  obtain ⟨hlt, hown⟩ := Finset.mem_filter.mp hu
  have hlt' := ((perform_becomes p a).unitAt (Finset.mem_range.mp hlt)).1
  exact Finset.mem_filter.mpr ⟨Finset.mem_range.mpr hlt', hown⟩

lemma sum_ownUnits (own : Nat → Bool) (a : Action) {f : Nat → Nat}
    (hf : ∀ u, p.world.heap.units.size ≤ u → f u = 0) :
    ∑ u ∈ ownUnits own (p.perform a), f u = ∑ u ∈ ownUnits own p, f u := by
  refine (Finset.sum_subset (ownUnits_subset own p a) fun u hu hnot => hf u ?_).symm
  by_contra hlt
  exact hnot (Finset.mem_filter.mpr
    ⟨Finset.mem_range.mpr (Nat.not_le.mp hlt), (Finset.mem_filter.mp hu).2⟩)

lemma hotness_perform (hp : p.world.Sound) (a : Action) (v : Nat) :
    p.vms.size ≤ (p.perform a).vms.size ∧
      (v < p.vms.size → ((p.perform a).vmAt v).config.hotness = (p.vmAt v).config.hotness) := by
  rcases perform_tuned hp a with ht | ⟨x, hpush, -⟩
  · refine ⟨ht.size.ge, fun _ => ?_⟩
    have htuning : ((p.perform a).vmAt v).config.tuning = (p.vmAt v).config.tuning := ht.tuning v
    show ((p.perform a).vmAt v).config.tuning.hotness = (p.vmAt v).config.tuning.hotness
    rw [htuning]
  · refine ⟨by rw [hpush, Array.size_push]; exact Nat.le_succ _, fun hv => ?_⟩
    rw [vmAt, hpush, getD_push, if_neg (Nat.ne_of_lt hv)]
    rfl

namespace Audited

lemma failures_absent (ha : Audited own p v log) {u : Nat} (hu : p.world.heap.units.size ≤ u) :
    WarmUp.failures u log = 0 := by
  rw [WarmUp.failures, List.countP_eq_zero]
  intro w hw
  have hlt := ha.there w hw
  simp only [Bool.and_eq_true, beq_iff_eq, not_and]
  omega

lemma isSome_absent (hp : p.world.Sound) {u : Nat} (hu : p.world.heap.units.size ≤ u) :
    (p.world.attachmentAt u).quickened.isSome.toNat = 0 := by
  rw [World.attachmentAt, getD_of_size_le (by rw [hp.size]; exact hu)]
  rfl

lemma accounted_same (hp : p.world.Sound) (ha : Audited own p v log) (a : Action) {u : Nat}
    (hu : own u = true)
    (hheat : ((p.perform a).world.attachmentAt u).heat = (p.world.attachmentAt u).heat) :
    Accounted ((p.perform a).vmAt v).config.hotness u ((p.perform a).world.attachmentAt u) log := by
  have hsame := (ha.accounted u hu).congr_heat hheat
  by_cases hv : v < p.vms.size
  · rw [(hotness_perform hp a v).2 hv]
    exact hsame
  · refine hsame.of_absent (fun w hw hc => hv (ha.present w hw (hc ▸ hu))) ?_
    exact lt_of_lt_of_le Nat.zero_lt_one (le_max_left ..)

lemma rest (hp : p.world.Sound) (ha : Audited own p v log) {a : Action}
    (hquick : (p.perform a).Quick)
    (hheat : ∀ u, own u = true →
      ((p.perform a).world.attachmentAt u).heat = (p.world.attachmentAt u).heat)
    (hcounts : SameCounts p (p.perform a) v) : Audited own (p.perform a) v log where
  quick := hquick
  there w hw := ((perform_becomes p a).unitAt (ha.there w hw)).1
  present w hw hu := lt_of_lt_of_le (ha.present w hw hu) (hotness_perform hp a v).1
  accounted u hu := ha.accounted_same hp a hu (hheat u hu)
  units := by
    rw [hcounts.1, ha.units, ← sum_ownUnits own a fun u => isSome_absent hp]
    refine Finset.sum_congr rfl fun u hu => ?_
    rw [Attachment.isSome_of_heat (hheat u (Finset.mem_filter.mp hu).2)]
  failures := by rw [hcounts.2, ha.failures, sum_ownUnits own a fun u => ha.failures_absent]

lemma other (hp : p.world.Sound) (ha : Audited own p v log) {a : Action}
    (hquick : (p.perform a).Quick) {w : WarmUp} (hw : p.Warms a w)
    (hunit : own w.unit = false) (hv : w.vm ≠ v) :
    Audited own (p.perform a) v (log ++ [w]) := by
  have hne {u : Nat} (hu : own u = true) : u ≠ w.unit := by
    rintro rfl
    rw [hunit] at hu
    cases hu
  have hrest := ha.rest hp hquick (fun u hu => hw.heat u (hne hu)) (hw.counts v hv.symm)
  refine ⟨hquick, fun w' hw' => ?_, fun w' hw' hu => ?_,
    fun u hu => (hrest.accounted u hu).other (hne hu).symm, hrest.units, ?_⟩
  · rcases List.mem_append.mp hw' with hold | hlast
    · exact hrest.there w' hold
    · rw [List.mem_singleton.mp hlast]
      exact ((perform_becomes p a).unitAt hw.there).1
  · rcases List.mem_append.mp hw' with hold | hlast
    · exact hrest.present w' hold hu
    · rw [List.mem_singleton.mp hlast, hunit] at hu
      cases hu
  · rw [hrest.failures]
    refine Finset.sum_congr rfl fun u hu => ?_
    rw [WarmUp.failures_append, if_neg (hne (Finset.mem_filter.mp hu).2).symm, Nat.add_zero]

lemma own_unit (hp : p.world.Sound) {a : Action} {w : WarmUp} (ha : Audited own p w.vm log)
    (hquick : (p.perform a).Quick) (hw : p.Warms a w) (hunit : own w.unit = true) :
    Audited own (p.perform a) w.vm (log ++ [w]) := by
  obtain ⟨x, hx, htick⟩ := hw.tick
  obtain ⟨hunits, hfails⟩ := htick.counts
  have hlt' := ((perform_becomes p a).unitAt hw.there).1
  have hvms := (hotness_perform hp a w.vm).1
  have hmem : w.unit ∈ ownUnits own (p.perform a) :=
    Finset.mem_filter.mpr ⟨Finset.mem_range.mpr hlt', hunit⟩
  refine ⟨hquick, fun w' hw' => ?_, fun w' hw' hu => lt_of_lt_of_le hw.vm hvms,
    fun u hu => ?_, ?_, ?_⟩
  · rcases List.mem_append.mp hw' with hold | hlast
    · exact ((perform_becomes p a).unitAt (ha.there w' hold)).1
    · rw [List.mem_singleton.mp hlast]
      exact hlt'
  · by_cases hne : u = w.unit
    · subst hne
      rw [(hotness_perform hp a w.vm).2 hw.vm]
      exact ((ha.accounted w.unit hu).congr_heat hx).tick rfl htick
    · exact (ha.accounted_same hp a hu (hw.heat u hne)).other fun hc => hne hc.symm
  · -- one summand has changed, and so has the count
    have hsum := sum_change hmem
      (f := fun u => (p.world.attachmentAt u).quickened.isSome.toNat)
      (g := fun u => ((p.perform a).world.attachmentAt u).quickened.isSome.toNat)
      fun u hne => by rw [Attachment.isSome_of_heat (hw.heat u hne)]
    rw [sum_ownUnits own a fun u => isSome_absent hp, ← ha.units] at hsum
    rw [Attachment.isSome_of_heat hx] at hunits
    omega
  · have hsum := sum_change hmem (f := fun u => WarmUp.failures u log)
      (g := fun u => WarmUp.failures u (log ++ [w]))
      fun u hne => by rw [WarmUp.failures_append, if_neg fun hc => hne hc.symm, Nat.add_zero]
    rw [sum_ownUnits own a fun u => ha.failures_absent, ← ha.failures] at hsum
    simp only [WarmUp.failures_append w.unit, if_true] at hsum
    omega

/-- **One action keeps the accounts.** -/
theorem perform (hp : p.world.Sound) (ha : Audited own p v log) (a : Action)
    (hown : ∀ w, p.warmUp? a = some w → w.there = true ∧ (own w.unit = true ↔ w.vm = v))
    (hhost : ∀ u limit, own u = true → a ≠ .quicken u limit) (hreset : a ≠ .resetStats v) :
    Audited own (p.perform a) v (log ++ (p.warmUp? a).toList) := by
  have hthere (w : WarmUp) (hw : p.warmUp? a = some w) := (hown w hw).1
  have hquick := perform_quick hp ha.quick a hthere
  rcases perform_warms hp ha.quick a hthere with ⟨hnone, hheat, hcounts⟩ | ⟨w, hw, hwarms⟩
  · rw [hnone, Option.toList_none, List.append_nil]
    exact ha.rest hp hquick (fun u hu => hheat u fun limit => hhost u limit hu) (hcounts v hreset)
  · have hmine := (hown w hw).2
    rw [hw, Option.toList_some]
    by_cases hv : w.vm = v
    · subst hv
      exact ha.own_unit hp hquick hwarms (hmine.mpr rfl)
    · have hunit : own w.unit = false := by
        rw [← Bool.not_eq_true]
        exact fun hc => hv (hmine.mp hc)
      exact ha.other hp hquick hwarms hunit hv

/-- **Whatever happens, warm-ups are accounted for.** -/
theorem after (hp : p.world.Sound) (ha : Audited own p v log) (as : List Action)
    (hown : ∀ w ∈ p.warmUps as, w.there = true ∧ (own w.unit = true ↔ w.vm = v))
    (hhost : ∀ u limit, own u = true → .quicken u limit ∉ as) (hreset : .resetStats v ∉ as) :
    Audited own (p.after as) v (log ++ p.warmUps as) := by
  induction as generalizing p log with
  | nil =>
    rw [warmUps, List.append_nil]
    exact ha
  | cons a as ih =>
    rw [warmUps, ← List.append_assoc]
    have hfirst := ha.perform hp a (fun w hw => hown w (by simp [warmUps, hw]))
      (fun u limit hu hc => hhost u limit hu (by simp [hc])) (fun hc => hreset (by simp [hc]))
    exact ih (perform_sound hp a) hfirst (fun w hw => hown w (List.mem_append_right _ hw))
      (fun u limit hu hc => hhost u limit hu (List.mem_cons_of_mem _ hc))
      (fun hc => hreset (List.mem_cons_of_mem _ hc))

end Audited

/-! ### Failures -/

lemma Learns.isSome_of_visit {a : Action} {k : Nat} {mid : Array Attachment}
    (hl : p.Learns a k mid) {v : Visit} (hv : p.visit? a = some v) :
    (mid.getD v.unit default).quickened.isSome = true := by
  rw [Attachment.isSome_of_heat (hl.heat v.unit)]
  cases hl with
  | nothing visit =>
    rw [visit] at hv
    cases hv
  | site machine visits visit =>
    cases visit.symm.trans hv
    rw [World.attachmentAt, ← (machine?_eq_some machine).2, visits.stream]
    rfl

lemma Learns.attachment_ne {a : Action} {k : Nat} {mid : Array Attachment} (hl : p.Learns a k mid)
    {u : Nat} (hu : ∀ v, p.visit? a = some v → v.unit ≠ u) :
    mid.getD u default = p.world.attachmentAt u := by
  cases hl with
  | nothing visit => rfl
  | site machine visits visit =>
    show ((Machine.visit ..).1.getD u default) = _
    rw [Machine.visit, getD_modify, if_neg fun hc => hu _ visit hc.1]
    rfl

lemma warms?_of_warmed {m : Machine} {k u : Nat} (hm : p.machine? = some m)
    (hw : p.warmed? .step = some (k, u)) : m.warms? = some u := by
  rcases hruns : p.runs with _ | ⟨r, rest⟩ <;> simp only [warmed?, hruns, hm] at hw
  · cases hw
  split at hw
  · cases hw
  · obtain ⟨u', hu', heq⟩ := Option.map_eq_some_iff.mp hw
    cases heq
    exact hu'

/-- The site of a call has been executed, as the innermost frame finds it: the event has happened
there, and the rest of its unit is as it was. -/
def Calls (p : Process) (a : Action) (v : Visit) : Prop :=
  ∃ m f q t, p.machine? = some m ∧ m.Visits f q .call t ∧
    let event := t.event (p.vmAt v.vm).config (q.counter f.position)
    let q' := q.changes f.position .call event.changes
    v = ⟨v.vm, f.unit, f.position, event.outcome⟩ ∧
      (p.perform a).world.attachmentAt f.unit =
        { p.world.attachmentAt f.unit with quickened := some q' } ∧
      q.Isolates q' f.position

/-- A unit that is entered from a site of another unit is entered by a call. -/
lemma Learns.calls (hp : p.world.Sound) {a : Action} {k u : Nat} {mid : Array Attachment}
    (hl : p.Learns a k mid) (hw : p.warmed? a = some (k, u)) {v : Visit}
    (hv : p.visit? a = some v) (hu : v.unit ≠ u)
    (hafter : (p.perform a).world.attachmentAt v.unit = mid.getD v.unit default) :
    v.vm = k ∧ p.Calls a v := by
  cases hl with
  | nothing visit =>
    rw [visit] at hv
    cases hv
  | @site m f q fam t machine visits visit =>
    cases visit.symm.trans hv
    cases a with
    | step =>
      obtain rfl := visits.call_of_warms? (warms?_of_warmed machine hw) hu
      obtain ⟨hheap, hattachments⟩ := machine?_eq_some machine
      have hstream : (p.world.attachmentAt f.unit).quickened = some q := by
        rw [World.attachmentAt, ← hattachments]
        exact visits.stream
      have hfinds : Machine.Finds p.world.heap (p.world.heap.unitAt f.unit) q f.position .call t :=
        hheap ▸ visits.finds
      have hlaid : q.Laid := (hp.streams f.unit q hstream).erases.laid
      obtain ⟨heq, hsuit⟩ := Quickened.apply_eq_changes hlaid hfinds (p.vmAt k).config
      refine ⟨rfl, m, f, q, t, machine, visits, rfl, ?_,
        (Quickened.changes_touches hfinds.family hsuit).isolates hlaid⟩
      rw [hafter]
      show (p.visited k f.unit f.position .call t).world.attachmentAt f.unit = _
      rw [attachmentAt_visited hstream, if_pos rfl, heq]
    | _ => cases visit

/-- A warm-up that fails ends the execution, and leaves the unit as if it were new. -/
structure Fails (p : Process) (a : Action) (w : WarmUp) : Prop where
  reply : let need := (Quickened.ofCode (p.world.heap.unitAt w.unit).instrs).memorySize
    let limit := (p.vmAt w.vm).config.memoryLimit
    limit < need ∧ p.reply a = .ended (.error (.limit (.memory need limit)))
  runs : (p.perform a).runs = p.others a
  unit : (p.perform a).world.attachmentAt w.unit = { warmup := 0, quickened := none }
  others : ∀ u ≠ w.unit, (∀ v, p.visit? a = some v → v.unit ≠ u) →
    (p.perform a).world.attachmentAt u = p.world.attachmentAt u
  /-- The unit that the call comes from has its site executed, and nothing else. -/
  caller : ∀ v, p.visit? a = some v → v.vm = w.vm ∧ v.unit ≠ w.unit ∧ p.Calls a v

lemma perform_fails (hp : p.world.Sound) (hq : p.Quick) {a : Action} {w : WarmUp}
    (hw : p.warmUp? a = some w) (hthere : w.there = true) (hfailed : w.failed = true) :
    p.Fails a w := by
  rcases perform_goes hp hq a with ⟨hnone, -⟩ | ⟨k, x, mid, u?, out, hgoes⟩
  · rw [hnone] at hw
    cases hw
  have hx : p.vmAt k = x := vmAt_of_getElem? hgoes.vm
  have hwarmed := hgoes.warmed
  rw [warmUp?, hwarmed, hgoes.reply] at hw
  split at hw
  · cases hw
  next hmode =>
  rw [if_neg hmode] at hwarmed
  rcases u? with _ | u
  · cases hw
  cases hw
  have hheats := hgoes.heats
  have hu : u < mid.size := by
    rw [hgoes.learns.size, hp.size]
    exact of_decide_eq_true hthere
  cases hheats with
  | warm result attachments levels quick => cases hfailed
  | @failed u e m result attachments levels frames =>
    rcases Machine.warmUp_outcomes p.world.heap mid x u with
      ⟨-, he⟩ | ⟨-, -, he⟩ | ⟨-, hnone, ⟨-, he⟩ | ⟨-, he⟩ | ⟨-, hneed, he⟩⟩ <;>
      rw [he] at result <;> cases result
    rw [he] at attachments
    have hother {j : Nat} (hj : j ≠ u) :
        (p.perform a).world.attachmentAt j = mid.getD j default := by
      rw [hgoes.eq]
      exact hgoes.heats.attachment_ne hj
    refine ⟨?_, by rw [hgoes.eq]; rfl, ?_, fun j hj hv => ?_, fun v hv => ?_⟩
    · dsimp only
      rw [hx, hgoes.reply]
      exact ⟨hneed, rfl⟩
    · rw [hgoes.eq]
      show m.attachments.getD u default = _
      rw [attachments, getD_modify, if_pos ⟨rfl, by rw [Array.size_modify]; exact hu⟩, getD_modify,
        if_pos ⟨rfl, hu⟩]
      show Attachment.mk 0 (mid.getD u default).quickened = _
      rw [hnone]
    · rw [hother hj]
      exact hgoes.learns.attachment_ne hv
    · -- the caller is quickened, and the unit is not
      have hne : v.unit ≠ u := by
        rintro rfl
        have hsome := hgoes.learns.isSome_of_visit hv
        rw [hnone] at hsome
        cases hsome
      obtain ⟨hvm, hcalls⟩ := hgoes.learns.calls hp hwarmed hv hne (hother hne)
      exact ⟨hvm, hne, hcalls⟩

/-! ### Units that get hot -/

namespace Audited

variable {a : Action} {u : Nat}

lemma quickens (hp : p.world.Sound) (ha : Audited own p v log)
    (hown : ∀ w, p.warmUp? a = some w → w.there = true ∧ (own w.unit = true ↔ w.vm = v))
    (hhost : ∀ limit, a ≠ .quicken u limit) (hu : own u = true)
    (hnone : (p.world.attachmentAt u).quickened = none)
    (hsome : ((p.perform a).world.attachmentAt u).quickened.isSome = true) :
    p.warmUp? a = some ⟨v, u, true, false⟩ ∧
      (p.world.attachmentAt u).warmup.toNat + 1 = (p.vmAt v).config.hotness ∧
      ((p.perform a).world.attachmentAt u).warmup.toNat = (p.vmAt v).config.hotness := by
  have hunheated :
      ((p.perform a).world.attachmentAt u).heat ≠ (p.world.attachmentAt u).heat := by
    intro hheat
    rw [Attachment.isSome_of_heat hheat, hnone] at hsome
    cases hsome
  rcases perform_warms hp ha.quick a fun w hw => (hown w hw).1 with ⟨-, hheat, -⟩ | ⟨w, hw, hwarms⟩
  · exact absurd (hheat u hhost) hunheated
  obtain ⟨hthere, hmine⟩ := hown w hw
  by_cases hne : u = w.unit
  swap
  · exact absurd (hwarms.heat u hne) hunheated
  subst hne
  obtain rfl : w.vm = v := hmine.mp hu
  obtain ⟨x, hx, htick⟩ := hwarms.tick
  have hcold := ((ha.accounted w.unit hu).cold hnone).1
  rw [← Attachment.warmup_of_heat hx] at hcold ⊢
  obtain ⟨k, unit, there, failed⟩ := w
  dsimp only at hthere htick hcold hsome hw ⊢
  generalize (p.perform a).world.attachmentAt unit = x' at htick hsome ⊢
  cases htick with
  | still quickened =>
    rw [Attachment.isSome_of_heat hx, hnone] at quickened
    cases quickened
  | tick quickened =>
    rw [show x.tick.quickened = none from quickened] at hsome
    cases hsome
  | install quickened reached =>
    have hreached := Accounted.tick_eq_hotness hcold reached
    exact ⟨hthere ▸ hw, hreached, (Accounted.toNat_tick hcold).trans hreached⟩
  | cool quickened =>
    rw [show x.tick.cool.quickened = none from quickened] at hsome
    cases hsome

lemma stays (hp : p.world.Sound) (ha : Audited own p v log)
    (hown : ∀ w, p.warmUp? a = some w → w.there = true ∧ (own w.unit = true ↔ w.vm = v))
    (hhost : ∀ limit, a ≠ .quicken u limit) (hu : own u = true)
    (hsome : (p.world.attachmentAt u).quickened.isSome = true) :
    ((p.perform a).world.attachmentAt u).quickened.isSome = true ∧
      ((p.perform a).world.attachmentAt u).warmup = (p.world.attachmentAt u).warmup ∧
      ∀ w, p.warmUp? a = some w → w.unit = u → w.failed = false ∧ SameCounts p (p.perform a) v := by
  rcases perform_warms hp ha.quick a fun w hw => (hown w hw).1 with
    ⟨hnone, hheat, -⟩ | ⟨w, hw, hwarms⟩
  · have hsame := hheat u hhost
    refine ⟨by rw [Attachment.isSome_of_heat hsame, hsome], Attachment.warmup_of_heat hsame,
      fun w hw => ?_⟩
    rw [hnone] at hw
    cases hw
  by_cases hne : u = w.unit
  swap
  · have hsame := hwarms.heat u hne
    refine ⟨by rw [Attachment.isSome_of_heat hsame, hsome], Attachment.warmup_of_heat hsame,
      fun w' hw' hc => ?_⟩
    cases hw.symm.trans hw'
    exact absurd hc.symm hne
  subst hne
  obtain rfl : w.vm = v := (hown w hw).2.mp hu
  obtain ⟨x, hx, htick⟩ := hwarms.tick
  rw [← Attachment.isSome_of_heat hx] at hsome
  rw [← Attachment.warmup_of_heat hx]
  have hstill : (p.perform a).world.attachmentAt w.unit = x ∧ w.failed = false ∧
      SameCounts p (p.perform a) w.vm := by
    unfold SameCounts
    generalize (p.perform a).world.attachmentAt w.unit = x' at htick
    generalize ((p.perform a).vmAt w.vm).stats = s' at htick
    generalize w.failed = failed at htick
    cases htick with
    | still quickened units failures => exact ⟨rfl, rfl, units, failures⟩
    | tick quickened =>
      rw [quickened] at hsome
      cases hsome
    | install quickened =>
      rw [quickened] at hsome
      cases hsome
    | cool quickened =>
      rw [quickened] at hsome
      cases hsome
  obtain ⟨hattachment, hfailed, hcounts⟩ := hstill
  rw [hattachment]
  refine ⟨hsome, rfl, fun w' hw' _ => ?_⟩
  cases hw.symm.trans hw'
  exact ⟨hfailed, hcounts⟩

end Audited

/-- **Warm-ups are accounted for**, for the units `own` that one interpreter alone warms up, and not
the host: each has been warmed up as often as it counts, and the threshold once more for every
failure, until the tick that reaches the threshold quickens it for good. A failure ends the run,
makes the unit as if new, and leaves the others alone but for the call site that led there. -/
theorem warmUps_accounted (as : List Action) (v : Nat) (own : Nat → Bool)
    (hown : ∀ w ∈ ({} : Process).warmUps as, w.there = true ∧ (own w.unit = true ↔ w.vm = v))
    (hhost : ∀ u limit, own u = true → .quicken u limit ∉ as) (hreset : .resetStats v ∉ as) :
    let p := ({} : Process).after as
    let log := ({} : Process).warmUps as
    let hotness := max 1 (p.vmAt v).config.warmupThreshold.toNat
    (∀ u, own u = true →
      ((p.world.attachmentAt u).quickened = none →
        (p.world.attachmentAt u).warmup.toNat < hotness ∧
        WarmUp.ticks u log =
          (p.world.attachmentAt u).warmup.toNat + hotness * WarmUp.failures u log) ∧
      ((p.world.attachmentAt u).quickened.isSome = true →
        (p.world.attachmentAt u).warmup.toNat = hotness)) ∧
    (p.vmAt v).stats.quickenedUnits =
      ∑ u ∈ ownUnits own p, (p.world.attachmentAt u).quickened.isSome.toNat ∧
    (p.vmAt v).stats.quickenFailures = ∑ u ∈ ownUnits own p, WarmUp.failures u log ∧
    ∀ a, (∀ w, p.warmUp? a = some w → w.there = true ∧ (own w.unit = true ↔ w.vm = v)) →
      (∀ w, p.warmUp? a = some w → w.failed = true → p.Fails a w) ∧
      ∀ u, own u = true → (∀ limit, a ≠ .quicken u limit) →
        let p' := p.perform a
        ((p.world.attachmentAt u).quickened = none →
          (p'.world.attachmentAt u).quickened.isSome = true →
          p.warmUp? a = some ⟨v, u, true, false⟩ ∧
          (p.world.attachmentAt u).warmup.toNat + 1 = hotness ∧
          (p'.world.attachmentAt u).warmup.toNat = hotness) ∧
        ((p.world.attachmentAt u).quickened.isSome = true →
          (p'.world.attachmentAt u).quickened.isSome = true ∧
          (p'.world.attachmentAt u).warmup = (p.world.attachmentAt u).warmup ∧
          ∀ w, p.warmUp? a = some w → w.unit = u →
            w.failed = false ∧ SameCounts p p' v) := by
  intro p log hotness
  have hsound : p.world.Sound := after_sound World.sound_empty as
  have haudit : Audited own p v log :=
    (audited_empty own v).after World.sound_empty as hown hhost hreset
  refine ⟨fun u hu => ⟨(haudit.accounted u hu).cold, fun hsome => ?_⟩, haudit.units,
    haudit.failures, fun a ha => ⟨fun w hw hfailed => ?_, fun u hu hquicken =>
      ⟨fun hnone hsome => ?_, fun hsome => ?_⟩⟩⟩
  · exact ((haudit.accounted u hu).hot hsome).1
  · exact perform_fails hsound haudit.quick hw (ha w hw).1 hfailed
  · exact haudit.quickens hsound ha hquicken hu hnone hsome
  · exact haudit.stays hsound ha hquicken hu hsome

def spin : Assembler := { name := "spin", instrs := #[⟨.nop, 0⟩, ⟨.jump, 0⟩] }

/-- An interpreter that has not the memory for the first unit, and another one beside it. The first
unit fails at its second run and is run once more, and then the second unit has gone round once. -/
def failing : List Action :=
  [.newVm { warmupThreshold := 2, memoryLimit := 43 },
   .newVm { warmupThreshold := 2 },
   .request (.newModule "numbers"),
   .request (.assign 2 "x" (.int 1)),
   .addUnit double, .addUnit spin, .addUnit double] ++
  runFor 4 0 0 ⟨2, "numbers"⟩ ++ runFor 4 1 2 ⟨2, "numbers"⟩ ++
  [.invoke 0 (.run 0 ⟨2, "numbers"⟩)] ++ runFor 4 0 0 ⟨2, "numbers"⟩ ++ runFor 1 0 1 ⟨2, "numbers"⟩

/-- The first unit has been warmed up three times and counts one, and the second one is quickened at
its second warm-up, when it jumps back. -/
theorem warmUps_accounted_failing :
    let p := ({} : Process).after failing
    let log := ({} : Process).warmUps failing
    (p.world.attachmentAt 0).warmup.toNat < 2 ∧ WarmUp.failures 0 log = 1 ∧
      WarmUp.ticks 0 log = (p.world.attachmentAt 0).warmup.toNat + 2 * WarmUp.failures 0 log ∧
      (p.vmAt 0).stats.quickenFailures = 1 ∧ p.warmUp? .step = some ⟨0, 1, true, false⟩ ∧
      (p.world.attachmentAt 1).warmup.toNat + 1 = 2 := by
  have hown : ∀ w ∈ ({} : Process).warmUps failing,
      w.there = true ∧ (decide (w.unit < 2) = true ↔ w.vm = 0) := by decide +kernel
  have hnext : ∀ w ∈ (({} : Process).after failing).warmUp? .step,
      w.there = true ∧ (decide (w.unit < 2) = true ↔ w.vm = 0) := by decide +kernel
  have hstate : let p := ({} : Process).after failing
      let p' := p.perform .step
      (p.world.attachmentAt 0).quickened.isNone = true ∧
      (p.world.attachmentAt 1).quickened.isNone = true ∧
      (p'.world.attachmentAt 1).quickened.isSome = true ∧
      (p.vmAt 0).config.warmupThreshold.toNat = 2 ∧ p.world.heap.units.size = 3 ∧
      WarmUp.failures 0 (({} : Process).warmUps failing) = 1 ∧
      (p.vmAt 0).stats.quickenFailures = 1 := by decide +kernel
  have haccounts := warmUps_accounted failing 0 (fun u => decide (u < 2)) hown
    (fun u limit _ hc => by simp [failing, runFor] at hc) (by simp [failing, runFor])
  generalize ({} : Process).after failing = p at haccounts hnext hstate ⊢
  generalize ({} : Process).warmUps failing = log at haccounts hstate ⊢
  obtain ⟨hnone0, hnone1, hsome1, hthreshold, hsize, hfailures, hcount⟩ := hstate
  dsimp only at haccounts
  rw [hthreshold] at haccounts
  obtain ⟨hunits, -, -, hactions⟩ := haccounts
  obtain ⟨hlt, hticks⟩ := (hunits 0 rfl).1 (Option.isNone_iff_eq_none.mp hnone0)
  obtain ⟨hwarm, hreached, -⟩ := ((hactions .step hnext).2 1 rfl (fun _ hc => by cases hc)).1
    (Option.isNone_iff_eq_none.mp hnone1) hsome1
  exact ⟨hlt, hfailures, hticks, hcount, hwarm, hreached⟩

end Process

end AdaptiveVM
