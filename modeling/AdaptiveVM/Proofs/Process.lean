import AdaptiveVM.Proofs.Sightings

/-!
Processes: a host, and interpreters that share one world.

The host makes objects and code, changes objects, quickens units, and sets interpreters going. A run
goes on step by step, and between two steps the host may do anything, also set another interpreter
going; the run begun last goes on first. Whatever the host does, in whatever order, the world stays
sound.
-/

namespace AdaptiveVM

/-- What a host can ask of a heap. -/
inductive Request where
  | newModule (name : String)
  | newClass (name : String)
  | instantiate (cls : Ref .cls)
  /-- A shape without fields that no class has. -/
  | newShape
  | extendShape (shape : Nat) (key : String)
  | newFunction (unit : Nat) (globals : Ref .mod) (defaults : List Value)
  | newBuiltin (name : String) (arity : Option UInt8) (procedure : Procedure)
  | newSource (source : Random.Source)
  | assign (names : Nat) (key : String) (value : Value)
  | remove (names : Nat) (key : String)
  | setField (object : Ref .inst) (key : String) (value : Value)

/-- The heap after a request. A function can only be made of code that is there. -/
def Heap.serve (h : Heap) : Request → Heap
  | .newModule name => (h.newModule name).2
  | .newClass name => (h.newClass name).2
  | .instantiate cls => (h.instantiate cls).2
  | .newShape => (h.newShape #[]).2
  | .extendShape shape key => (h.extendShape shape key).2
  | .newFunction unit globals defaults =>
    if unit < h.units.size then (h.newFunction unit globals defaults).2 else h
  | .newBuiltin name arity procedure => (h.newBuiltin name arity procedure).2
  | .newSource source => (h.newSource source).2
  | .assign names key value => h.assign names key value
  | .remove names key => (h.remove names key).2
  | .setField object key value => h.setField object key value

/-- How an execution is begun. -/
inductive Invocation where
  | run (unit : Nat) (globals : Ref .mod)
  | call (callee : Value) (args : List Value)

def Invocation.start (w : World) (vm : Vm) : Invocation → Progress
  | .run unit globals => Machine.start w vm unit globals
  | .call callee args => Machine.startCall w vm callee args

/-- An execution under way: the interpreter, by its place, and its frames. -/
structure Run where
  vm : Nat
  frames : List Frame

structure Process where
  world : World := {}
  vms : Array Vm := #[]
  /-- The executions under way, the one begun last first. -/
  runs : List Run := []

inductive Action where
  | request (r : Request)
  /-- Finish a piece of code; nothing is added if it is not accepted. -/
  | addUnit (code : Assembler)
  | quicken (unit limit : Nat)
  /-- Make an interpreter; nothing is made if the configuration is refused. -/
  | newVm (config : Config)
  | setMode (vm : Nat) (mode : Mode)
  | resetStats (vm : Nat)
  /-- Begin or stop recording instructions. -/
  | watch (vm : Nat) (observed : Bool)
  | invoke (vm : Nat) (invocation : Invocation)
  /-- One step of the execution begun last. -/
  | step

namespace Process

/-- The process after an interpreter has gone on, above the other executions `rest`. -/
def settle (p : Process) (vm : Nat) (rest : List Run) (out : Progress) : Process :=
  { world := ⟨out.machine.heap, out.machine.attachments⟩
    vms := p.vms.setIfInBounds vm out.machine.vm
    runs := match out with
      | .running m => ⟨vm, m.frames⟩ :: rest
      | _ => rest }

/-- The machine whose step comes next. -/
def machine? (p : Process) : Option Machine :=
  match p.runs with
  | [] => none
  | r :: _ => (p.vms[r.vm]?).map fun vm => ⟨p.world.heap, p.world.attachments, vm, r.frames⟩

def perform (p : Process) : Action → Process
  | .request r => { p with world := { p.world with heap := p.world.heap.serve r } }
  | .addUnit code =>
    match code.build with
    | .ok u => { p with world := (p.world.newUnit u).2 }
    | .error _ => p
  | .quicken unit limit => { p with world := (p.world.tryQuicken unit limit).2 }
  | .newVm config =>
    match config.validate with
    | .ok config =>
      let (vm, heap) := Vm.create config p.world.heap
      { p with world := { p.world with heap }, vms := p.vms.push vm }
    | .error _ => p
  | .setMode vm mode => { p with vms := p.vms.modify vm (·.setMode mode) }
  | .resetStats vm => { p with vms := p.vms.modify vm Vm.resetStats }
  | .watch vm observed => { p with vms := p.vms.modify vm fun x => { x with observed } }
  | .invoke vm invocation =>
    match p.vms[vm]? with
    | some x => p.settle vm p.runs (invocation.start p.world x)
    | none => p
  | .step =>
    match p.runs, p.machine? with
    | r :: rest, some m => p.settle r.vm rest m.step
    | _, _ => p

/-- The process after some actions. -/
def after (p : Process) (as : List Action) : Process := as.foldl perform p

end Process

/-! ### Worlds stay sound -/

lemma Heap.serve_develops (h : Heap) (r : Request) : h.Develops (h.serve r) := by
  cases r with
  | newModule name => exact newNamespace_develops h
  | newClass name => exact newClass_develops h name
  | instantiate cls => exact instantiate_develops h cls
  | newShape => exact newRoot_develops h
  | extendShape shape key => exact extendShape_develops h shape key
  | newFunction unit globals defaults =>
    dsimp only [serve]
    split
    · next hu => exact newFunction_develops h hu globals defaults
    · exact .refl h
  | newBuiltin name arity procedure => exact newBuiltin_develops h name arity procedure
  | newSource source => exact newSource_develops h source
  | assign names key value => exact assign_develops h names key value
  | remove names key => exact remove_develops h names key
  | setField object key value => exact setField_develops h object key value

lemma Vm.create_develops (config : Config) (h : Heap) : h.Develops (Vm.create config h).2 := by
  have hi := Builtins.install_develops h
  rcases hb : Builtins.install h with ⟨builtins, h'⟩
  rw [hb] at hi
  rw [Vm.create, hb]
  exact hi

lemma Invocation.start_quiet (w : World) (vm : Vm) (i : Invocation) :
    Machine.Quiet w.heap w.attachments vm (i.start w vm).machine := by
  have hidle := Machine.Quiet.refl w.heap w.attachments vm []
  cases i with
  | run unit globals =>
    unfold start Machine.start
    dsimp only
    split
    · exact hidle.fault _
    · exact hidle.enter _ _ _
  | call callee args => exact hidle.call callee args

namespace World

variable {w w' : World}

lemma Sound.newUnit (hw : w.Sound) {u : CodeUnit} (hu : u.Checked) : (w.newUnit u).2.Sound := by
  obtain ⟨hwf, hl⟩ := Heap.newUnit_keeps hw.heap u
  have hunit (k : Nat) : (w.newUnit u).2.heap.unitAt k =
      if k = w.heap.units.size then u else w.heap.unitAt k :=
    getD_push ..
  refine ⟨hwf, ?_, fun k => ?_, fun k q hq => ?_⟩
  · show (w.attachments.push {}).size = (w.heap.units.push u).size
    rw [Array.size_push, Array.size_push, hw.size]
  · rw [hunit]
    split
    · exact hu
    · exact hw.checked k
  · change ((w.attachments.push {}).getD k default).quickened = some q at hq
    rw [getD_push, hw.size] at hq
    rw [hunit]
    split at hq
    · cases hq
    · next hk =>
      rw [if_neg hk]
      exact (hw.streams k q hq).later hw.heap.versioned hl

/-- Quickening at the host's request warms one unit up, or leaves it as it was. -/
lemma tryQuicken_warmed (w : World) (u limit : Nat) :
    Machine.Warmed w.heap w.attachments (w.tryQuicken u limit).2.attachments := by
  refine ⟨Array.size_setIfInBounds .., fun k => ?_⟩
  dsimp only [tryQuicken]
  rw [getD_setIfInBounds]
  split
  · next hc =>
    obtain ⟨rfl, -⟩ := hc
    unfold Attachment.quicken
    split
    · exact .inl rfl
    · next hnone =>
      unfold Quickened.quicken
      dsimp only
      split
      · next q hok =>
        split at hok
        · cases hok
        · cases hok
          exact .inr ⟨hnone, rfl⟩
      · exact .inl rfl
  · exact .inl rfl

/-- A world without objects, wherever its sources stand. -/
lemma sound_tokens (t : Tokens) : ({ heap := { tokens := t } } : World).Sound where
  heap := Heap.wellFormed_tokens t
  size := rfl
  checked _ := fun _ hi => absurd hi (Array.not_mem_empty _)
  streams u q hq := by
    rw [attachmentAt, getD_of_size_le (by simp)] at hq
    cases hq

lemma sound_empty : ({} : World).Sound := sound_tokens {}

end World

namespace Process

variable {p : Process}

lemma machine?_eq_some {m : Machine} (hm : p.machine? = some m) :
    m.heap = p.world.heap ∧ m.attachments = p.world.attachments := by
  unfold machine? at hm
  split at hm
  · cases hm
  · obtain ⟨vm, -, rfl⟩ := Option.map_eq_some_iff.mp hm
    exact ⟨rfl, rfl⟩

lemma perform_sound (hp : p.world.Sound) (a : Action) : (p.perform a).world.Sound := by
  cases a with
  | request r => exact hp.develop (p.world.heap.serve_develops r)
  | addUnit code =>
    dsimp only [perform]
    split
    · next u hu => exact hp.newUnit (Assembler.build_checked hu)
    · exact hp
  | quicken unit limit => exact hp.warm (p.world.tryQuicken_warmed unit limit)
  | newVm config =>
    dsimp only [perform]
    split
    · next config _ => exact hp.develop (Vm.create_develops config p.world.heap)
    · exact hp
  | setMode vm mode => exact hp
  | resetStats vm => exact hp
  | watch vm observed => exact hp
  | invoke vm invocation =>
    dsimp only [perform]
    split
    · exact hp.quiet (invocation.start_quiet p.world _)
    · exact hp
  | step =>
    dsimp only [perform]
    split
    · next hm =>
      obtain ⟨hheap, hatt⟩ := machine?_eq_some hm
      refine World.Sound.step ?_
      rw [hheap, hatt]
      exact hp
    · exact hp

/-- **Whatever happens, the world is sound.** -/
theorem after_sound (hp : p.world.Sound) (as : List Action) : (p.after as).world.Sound := by
  induction as generalizing p with
  | nil => exact hp
  | cons a as ih => exact ih (perform_sound hp a)

/-! ### What an action does to sites and counts -/

/-- The interpreter at a place; one that is not there yet has counted nothing. -/
def vmAt (p : Process) (v : Nat) : Vm := p.vms.getD v default

end Process

lemma Config.fault?_of_validate {c c' : Config} (h : c.validate = .ok c') : c'.fault? = none := by
  unfold validate at h
  split at h
  · cases h
  · next hnone =>
    cases h
    exact hnone

/-- The settings apart from the mode. -/
def Config.tuning (c : Config) : Config := { c with mode := .adaptive }

/-- One step of an interpreter: the unit it is in, and the family of the site it executes, if it
executes one of a quickened stream and the operands are on the stack. -/
structure Execution where
  vm : Nat
  unit : Nat
  site : Option Family
  deriving DecidableEq

namespace Process

def execution? (p : Process) : Action → Option Execution
  | .step =>
    match p.runs, p.machine? with
    | r :: _, some m => m.frames.head?.map fun f => ⟨r.vm, f.unit, m.site?⟩
    | _, _ => none
  | _ => none

/-- All steps of interpreters along some actions. -/
def history (p : Process) : List Action → List Execution
  | [] => []
  | a :: as => (p.execution? a).toList ++ (p.perform a).history as

/-- The process in which an interpreter has executed a site, before the rest of the step. -/
def visited (p : Process) (v u position : Nat) (fam : Family) (t : Trial) : Process :=
  { p with
    world :=
      { p.world with
        attachments := (Machine.visit p.world.attachments (p.vmAt v) u position fam t).1 }
    vms := p.vms.setIfInBounds v (Machine.visit p.world.attachments (p.vmAt v) u position fam t).2 }

/-- No site has been executed: units may have been quickened, and an interpreter keeps its tuning
and its counts, unless it has only just been made. -/
structure Calm (p p' : Process) (v : Nat) : Prop where
  size : p.world.attachments.size ≤ p'.world.attachments.size
  quickened : ∀ u, (p'.world.attachmentAt u).quickened = (p.world.attachmentAt u).quickened ∨
    (p.world.attachmentAt u).quickened = none ∧
      ∃ code, (p'.world.attachmentAt u).quickened = some (.ofCode code)
  vm : ((p'.vmAt v).config.tuning = (p.vmAt v).config.tuning ∧
      ∀ family, (p'.vmAt v).stats.family family = (p.vmAt v).stats.family family) ∨
    p.vmAt v = default ∧ (p'.vmAt v).stats = {} ∧ (p'.vmAt v).config.fault? = none

variable {p p' : Process} {v : Nat}

namespace Calm

/-- An action that leaves attachments alone. -/
lemma of_vm (ha : p'.world.attachments = p.world.attachments)
    (hc : (p'.vmAt v).config.tuning = (p.vmAt v).config.tuning)
    (hs : (p'.vmAt v).stats = (p.vmAt v).stats) : Calm p p' v where
  size := by rw [ha]
  quickened u := .inl (by rw [World.attachmentAt, ha, World.attachmentAt])
  vm := .inl ⟨hc, fun _ => by rw [hs]⟩

lemma of_warmed (hw : Machine.Warmed p.world.heap p.world.attachments p'.world.attachments)
    (hvm : (p.vmAt v).Keeps (p'.vmAt v)) : Calm p p' v where
  size := hw.size.ge
  quickened u := by
    rcases hw.quickened u with hsame | ⟨hnone, hsome⟩
    · exact .inl hsame
    · exact .inr ⟨hnone, _, hsome⟩
  vm := .inl ⟨by rw [hvm.config], hvm.counts⟩

end Calm

lemma vmAt_settle (p : Process) (k : Nat) (rest : List Run) (out : Progress) (v : Nat) :
    (p.settle k rest out).vmAt v =
      if k = v ∧ v < p.vms.size then out.machine.vm else p.vmAt v :=
  getD_setIfInBounds ..

/-- An interpreter that goes on quietly. -/
lemma settle_calm {k : Nat} {x : Vm} (hx : p.vmAt k = x) {out : Progress}
    (hq : Machine.Quiet p.world.heap p.world.attachments x out.machine) (rest : List Run)
    (v : Nat) : Calm p (p.settle k rest out) v := by
  refine .of_warmed hq.warmed ?_
  rw [vmAt_settle]
  split
  · next hk =>
    obtain ⟨rfl, -⟩ := hk
    rw [hx]
    exact hq.vm
  · exact .refl _

lemma settle_visited (p : Process) (k u position : Nat) (fam : Family) (t : Trial)
    (rest : List Run) (out : Progress) :
    (p.visited k u position fam t).settle k rest out = p.settle k rest out := by
  simp [settle, visited]

lemma vmAt_visited (p : Process) (k u position : Nat) (fam : Family) (t : Trial) (v : Nat) :
    (p.visited k u position fam t).vmAt v =
      if k = v ∧ v < p.vms.size then
        (Machine.visit p.world.attachments (p.vmAt k) u position fam t).2
      else p.vmAt v :=
  getD_setIfInBounds ..

lemma vmAt_of_getElem? {x : Vm} (hx : p.vms[v]? = some x) : p.vmAt v = x := by
  rw [vmAt, Array.getD_eq_getD_getElem?, hx]
  rfl

lemma modify_calm (k : Nat) (f : Vm → Vm) (hf : ∀ x, (f x).config.tuning = x.config.tuning)
    (hs : k = v → ∀ x, (f x).stats = x.stats) :
    Calm p { p with vms := p.vms.modify k f } v := by
  have hget : vmAt { p with vms := p.vms.modify k f } v =
      if k = v ∧ v < p.vms.size then f (p.vmAt v) else p.vmAt v :=
    getD_modify ..
  refine .of_vm rfl ?_ ?_
  · rw [hget]
    split
    · exact hf _
    · rfl
  · rw [hget]
    split
    · next hk => exact hs hk.1 _
    · rfl

lemma newVm_calm (config : Config) (hc : config.fault? = none) (heap : Heap) (v : Nat) :
    Calm p
      { p with
        world := { p.world with heap }
        vms := p.vms.push (Vm.create config p.world.heap).1 } v where
  size := le_rfl
  quickened _ := .inl rfl
  vm := by
    have hget : (p.vms.push (Vm.create config p.world.heap).1).getD v default =
        if v = p.vms.size then (Vm.create config p.world.heap).1 else p.vmAt v :=
      getD_push ..
    by_cases hv : v = p.vms.size
    · refine .inr ⟨?_, ?_, ?_⟩
      · rw [vmAt, hv, getD_of_size_le le_rfl]
      · show ((p.vms.push _).getD v default).stats = {}
        rw [hget, if_pos hv]
        rfl
      · show ((p.vms.push _).getD v default).config.fault? = none
        rw [hget, if_pos hv]
        exact hc
    · refine .inl ⟨?_, fun family => ?_⟩
      · show ((p.vms.push _).getD v default).config.tuning = _
        rw [hget, if_neg hv]
      · show ((p.vms.push _).getD v default).stats.family family = _
        rw [hget, if_neg hv]

lemma newUnit_calm (u : CodeUnit) (v : Nat) :
    Calm p { p with world := (p.world.newUnit u).2 } v where
  size := by simp [World.newUnit]
  quickened k := by
    refine .inl ?_
    show ((p.world.attachments.push {}).getD k default).quickened = _
    rw [getD_push]
    split
    · next hk =>
      rw [World.attachmentAt, hk, getD_of_size_le le_rfl]
      rfl
    · rfl
  vm := .inl ⟨rfl, fun _ => rfl⟩

/-- Apart from a step, no action executes anything. -/
lemma perform_calm {a : Action} (hreset : a ≠ .resetStats v) (hstep : a ≠ .step) :
    p.execution? a = none ∧ Calm p (p.perform a) v := by
  cases a with
  | request r => exact ⟨rfl, .of_vm rfl rfl rfl⟩
  | addUnit code =>
    refine ⟨rfl, ?_⟩
    dsimp only [perform]
    split
    · next u _ => exact newUnit_calm u v
    · exact .of_vm rfl rfl rfl
  | quicken unit limit =>
    exact ⟨rfl, .of_warmed (p.world.tryQuicken_warmed unit limit) (.refl _)⟩
  | newVm config =>
    refine ⟨rfl, ?_⟩
    dsimp only [perform]
    split
    · next config' hok => exact newVm_calm config' (Config.fault?_of_validate hok) _ v
    · exact .of_vm rfl rfl rfl
  | setMode vm mode => exact ⟨rfl, modify_calm vm _ (fun _ => rfl) fun _ _ => rfl⟩
  | resetStats vm =>
    refine ⟨rfl, modify_calm vm _ (fun _ => rfl) fun hv => ?_⟩
    rw [hv] at hreset
    exact absurd rfl hreset
  | watch vm observed => exact ⟨rfl, modify_calm vm _ (fun _ => rfl) fun _ _ => rfl⟩
  | invoke vm invocation =>
    refine ⟨rfl, ?_⟩
    dsimp only [perform]
    split
    · next x hx => exact settle_calm (vmAt_of_getElem? hx) (invocation.start_quiet p.world x) _ v
    · exact .of_vm rfl rfl rfl
  | step => exact absurd rfl hstep

/-- The interpreter that executes a site goes on quietly from there. -/
lemma settle_visited_calm {k : Nat} {x : Vm} (hx : p.vms[k]? = some x) {f : Frame} {fam : Family}
    {t : Trial} {out : Progress}
    (hq : Machine.Quiet p.world.heap
      (Machine.visit p.world.attachments x f.unit f.position fam t).1
      (Machine.visit p.world.attachments x f.unit f.position fam t).2 out.machine)
    (rest : List Run) (v : Nat) :
    Calm (p.visited k f.unit f.position fam t) (p.settle k rest out) v := by
  have hk : k < p.vms.size := (Array.getElem?_eq_some_iff.mp hx).1
  rw [← vmAt_of_getElem? hx] at hq
  rw [← settle_visited p k f.unit f.position fam t]
  refine settle_calm ?_ hq rest v
  rw [vmAt_visited, if_pos ⟨rfl, hk⟩]

/-- A step executes no site, or one interpreter executes the site it stands at. -/
lemma step_visits (hp : p.world.Sound) (v : Nat) :
    ((∀ e, p.execution? .step = some e → e.site = none) ∧ Calm p (p.perform .step) v) ∨
      ∃ r rest x f q fam t, p.runs = r :: rest ∧ p.vms[r.vm]? = some x ∧
        Machine.Visits ⟨p.world.heap, p.world.attachments, x, r.frames⟩ f q fam t := by
  rcases hruns : p.runs with _ | ⟨r, rest⟩
  · -- nothing is going on
    simp only [execution?, perform, hruns]
    exact .inl ⟨nofun, .of_vm rfl rfl rfl⟩
  rcases hx : p.vms[r.vm]? with _ | x
  · simp only [execution?, perform, machine?, hruns, hx, Option.map_none]
    exact .inl ⟨nofun, .of_vm rfl rfl rfl⟩
  simp only [execution?, perform, machine?, hruns, hx, Option.map_some]
  rcases Machine.step_cases ⟨p.world.heap, p.world.attachments, x, r.frames⟩ hp with
    ⟨hsite, hquiet⟩ | ⟨f, q, fam, t, hvisit⟩
  · refine .inl ⟨fun e he => ?_, settle_calm (vmAt_of_getElem? hx) hquiet rest v⟩
    obtain ⟨f, -, rfl⟩ := Option.map_eq_some_iff.mp he
    exact hsite
  · exact .inr ⟨r, rest, x, f, q, fam, t, rfl, hx, hvisit⟩

lemma perform_step {r : Run} {rest : List Run} {x : Vm} (hruns : p.runs = r :: rest)
    (hx : p.vms[r.vm]? = some x) : p.perform .step =
      p.settle r.vm rest (Machine.step ⟨p.world.heap, p.world.attachments, x, r.frames⟩) := by
  simp only [perform, machine?, hruns, hx, Option.map_some]

/-- **What an action does**: nothing to sites and counts, or one interpreter executes one site. -/
theorem perform_cases (hp : p.world.Sound) (a : Action) (v : Nat) (ha : a ≠ .resetStats v) :
    ((∀ e, p.execution? a = some e → e.site = none) ∧ Calm p (p.perform a) v) ∨
      ∃ k u position q fam t, p.execution? a = some ⟨k, u, some fam⟩ ∧ k < p.vms.size ∧
        (p.world.attachmentAt u).quickened = some q ∧
        Machine.Finds p.world.heap (p.world.heap.unitAt u) q position fam t ∧
        Calm (p.visited k u position fam t) (p.perform a) v := by
  by_cases hstep : a = .step
  · subst hstep
    rcases step_visits hp v with hcalm | ⟨r, rest, x, f, q, fam, t, hruns, hx, hvisit⟩
    · exact .inl hcalm
    · have hk : r.vm < p.vms.size := (Array.getElem?_eq_some_iff.mp hx).1
      refine .inr ⟨r.vm, f.unit, f.position, q, fam, t, ?_, hk, hvisit.stream, hvisit.finds, ?_⟩
      · simp only [execution?, machine?, hruns, hx, Option.map_some]
        rw [hvisit.frame, Option.map_some, hvisit.site]
      · rw [perform_step hruns hx]
        exact settle_visited_calm hx hvisit.quiet rest v
  · obtain ⟨hnone, hcalm⟩ := perform_calm (p := p) ha hstep
    rw [hnone]
    exact .inl ⟨nofun, hcalm⟩

/-! ### Two interpreters, two modules -/

/-- A run of a unit in a module, for some steps. -/
def runFor (steps vm unit : Nat) (globals : Ref .mod) : List Action :=
  .invoke vm (.run unit globals) :: List.replicate steps .step

/-- A unit that adds a global to itself. -/
def double : Assembler :=
  { name := "double"
    instrs := #[⟨.loadGlobal, 0⟩, ⟨.loadGlobal, 0⟩, ⟨.binaryAdd, 0⟩, ⟨.ret, 0⟩]
    names := #["x"] }

/-- One interpreter runs the first of two such units where the global is a number, until all its
sites are specialized. -/
def doubling : List Action :=
  [.newVm { warmupThreshold := 1, specializeThreshold := 2 },
   .newVm { warmupThreshold := 1, specializeThreshold := 2 },
   .request (.newModule "numbers"),
   .request (.newModule "texts"),
   .request (.assign 2 "x" (.int 1)),
   .request (.assign 3 "x" (.str "a")),
   .addUnit double, .addUnit double] ++
  runFor 4 0 0 ⟨2, "numbers"⟩ ++ runFor 4 0 0 ⟨2, "numbers"⟩

end Process

end AdaptiveVM
