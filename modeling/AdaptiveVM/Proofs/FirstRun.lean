import AdaptiveVM.Proofs.Building
import AdaptiveVM.Proofs.Walks

/-!
First runs of workloads.

A workload is built in a world, and a new interpreter runs it once. If its program leads to a value
for an interpreter that traces, the run returns that value, or comes to a limit on the way. Short
units can be quickened in less memory than the default configuration allows.
-/

namespace AdaptiveVM

/-! ### Short units -/

namespace Quickened

lemma place_le (p c : Nat) (i : Instr) : (place p c i).2 ≤ max c (p / 2) + 2 := by
  unfold place
  split
  · simp only
    omega
  · next family _ =>
    rcases entries_eq family with h2 | h0
    · rw [if_neg (by omega)]
      dsimp only
      split
      · rw [h2]
      · simp only
        omega
    · rw [if_pos h0]
      simp only
      omega

/-- A site has two words at most, and the words of a site do not start far beyond it. -/
lemma layoutFrom_le (p c : Nat) (code : List Instr) (hc : c ≤ 3 * p) :
    (layoutFrom p c code).2 ≤ 3 * (p + code.length) := by
  induction code generalizing p c with
  | nil => exact hc
  | cons i code ih =>
    have hplace := place_le p c i
    have hrest := ih (p + 1) (place p c i).2 (by omega)
    rw [List.length_cons, layoutFrom]
    dsimp only
    omega

lemma footprint_le (code : Array Instr) :
    footprint code.size (layout code).2 ≤ 27 * code.size := by
  have hwords := layoutFrom_le 0 0 code.toList (Nat.zero_le _)
  rw [Array.length_toList] at hwords
  unfold footprint instrBytes wordBytes layout
  omega

end Quickened

/-- The limits are at least those of the default configuration. -/
def Config.Roomy (c : Config) : Prop :=
  ({} : Config).memoryLimit ≤ c.memoryLimit ∧ ({} : Config).maxFrameDepth ≤ c.maxFrameDepth

lemma Config.Starves.memory_lt {c : Config} {code : Array Instr} (hs : c.Starves code)
    (hcode : code.size ≤ 255) : c.memoryLimit < ({} : Config).memoryLimit := by
  have hle := Quickened.footprint_le code
  have hlt := hs.2
  show c.memoryLimit < 1048576
  omega

/-- Where there is as much memory as by default, short units can be quickened. -/
lemma Config.Roomy.not_starves {c c' : Config} (hroomy : c.Roomy)
    (hmem : c'.memoryLimit = c.memoryLimit) {code : Array Instr} (hcode : code.size ≤ 255) :
    ¬ c'.Starves code := by
  intro hstarves
  have hlt := hstarves.memory_lt hcode
  have hroom := hroomy.1
  omega

lemma Config.maxFrameDepth_ne_zero {c : Config} (h : c.fault? = none) : c.maxFrameDepth ≠ 0 := by
  intro hzero
  rw [Config.fault?, if_pos hzero] at h
  split_ifs at h

/-! ### Interpreters that trace -/

/-- An interpreter of some configuration, if it traced. -/
def Vm.tracer (c : Config) (b : Ref .mod) (depth : Nat) : Vm :=
  { config := { c with mode := .tracing }, builtins := b, depth }

lemma Vm.plain_tracer (c : Config) (b : Ref .mod) (depth : Nat) : (tracer c b depth).Plain :=
  ⟨rfl, rfl⟩

namespace Machine

/-- The step goes on in a short unit. -/
def Stays (c : Config) (t t' : Machine) : Prop :=
  t.vm.config.memoryLimit = c.memoryLimit ∧
    ∀ f ∈ t'.frames.head?, (t'.heap.unitAt f.unit).instrs.size ≤ 255

lemma stays_of_renders {c : Config} {t : Machine} {h : Heap} {a : Array Attachment} {vm : Vm}
    {f : Frame} {rest : List Frame} {lines : List Assembler.Line}
    (hmem : t.vm.config.memoryLimit = c.memoryLimit)
    (hr : (h.unitAt f.unit).Renders lines) (hlength : lines.length ≤ 255) :
    Stays c t ⟨h, a, vm, f :: rest⟩ := by
  refine ⟨hmem, fun f' hf => ?_⟩
  obtain rfl : f = f' := Option.some.inj hf
  show (h.unitAt f.unit).instrs.size ≤ 255
  rw [hr.size]
  exact hlength

/-- The next step returns a value. -/
def Returns (v : Value) (t : Machine) : Prop := ∃ m, t.step = .returned m v

/-- The value has been returned or, where the limits are lower than the default ones, a limit has
been reached. -/
def Ending.Delivers (e : Ending) (c : Config) (v : Value) : Prop :=
  e.result = .ok v ∨ ¬ c.Roomy ∧ ∃ l, e.result = .error (.limit l)

/-- A limit has been reached, and there is less room than by default. -/
def LimitExcused (c : Config) (e : Error) : Prop := ¬ c.Roomy ∧ ∃ l, e = .limit l

variable {c : Config} {w : World} {u : Nat} {g b : Ref .mod} {v : Value}

/-- The first frame is entered as an interpreter that traces would enter it. -/
lemma start_shadows (hdepth : c.maxFrameDepth ≠ 0) (hargs : (w.heap.unitAt u).argcount = 0) :
    (start w { config := c, builtins := b } u g).Shadows c #[] {}
      (.running (standing #[] (.tracer c b 1) [] u g w.heap
        (Binding.slots (w.heap.unitAt u).nlocals.toNat []) 0)) := by
  have hzero : ¬ (w.heap.unitAt u).argcount ≠ 0 := not_not.mpr hargs
  have hroom : ¬ (Vm.tracer c b 0).config.maxFrameDepth ≤ (Vm.tracer c b 0).depth := by
    show ¬ c.maxFrameDepth ≤ 0
    omega
  have henter : Progress.Shadows _ c #[] {} _ :=
    enter_shadows (idle w { config := c, builtins := b }) u g
      (Binding.slots (w.heap.unitAt u).nlocals.toNat [])
  have hidle : (idle w { config := c, builtins := b }).traced #[] {} =
      ⟨w.heap, #[], .tracer c b 0, []⟩ := rfl
  rw [hidle, enter_plain (Vm.plain_tracer c b 0) hroom] at henter
  rw [start, if_neg hzero]
  exact henter

lemma sound_of_step {m m' : Machine} (hm : World.Sound ⟨m.heap, m.attachments⟩)
    (hstep : m.step = .running m') : World.Sound ⟨m'.heap, m'.attachments⟩ := by
  have hnext := World.Sound.step hm
  rwa [hstep] at hnext

lemma quiet_of_start {vm : Vm} {m : Machine} (hm : start w vm u g = .running m) :
    Quiet w.heap w.attachments vm m := by
  have hquiet := Invocation.start_quiet w vm (.run u g)
  rwa [show (Invocation.run u g).start w vm = .running m from hm] at hquiet

/-- A machine returns what it would return if it traced. -/
lemma returned_of_returns {m : Machine} {a : Array Attachment} {s : Stats}
    (hm : World.Sound ⟨m.heap, m.attachments⟩) (hreturns : Returns v (m.traced a s)) :
    ∃ m', m.step = .returned m' v := by
  obtain ⟨t, ht⟩ := hreturns
  have hstep := m.step_shadows hm a s
  rw [ht] at hstep
  cases hstep with
  | same eq => exact returned_of_traced eq

/-- The first run of a unit that leads to a value delivers it. -/
theorem start_delivers (hw : w.Sound) (hdepth : c.maxFrameDepth ≠ 0)
    (hargs : (w.heap.unitAt u).argcount = 0) (hsize : (w.heap.unitAt u).instrs.size ≤ 255)
    (hl : Leads (Stays c) (LimitExcused c) (Returns v)
      (standing #[] (.tracer c b 1) [] u g w.heap
        (Binding.slots (w.heap.unitAt u).nlocals.toNat []) 0)) :
    (start w { config := c, builtins := b } u g).Ends fun e => e.Delivers c v := by
  refine hl.ends_of_shadows (J := fun m => World.Sound ⟨m.heap, m.attachments⟩) (fun _ hm => hm)
    (fun m m' hm hstep _ => sound_of_step hm hstep) (fun m hm hreturns => ?_) ⟨?_, ?_⟩
    (start_shadows hdepth hargs) (fun m hm => hw.quiet (quiet_of_start hm)) ?_
  · obtain ⟨m', hm'⟩ := returned_of_returns hm hreturns
    refine ends_of_step ?_
    rw [hm']
    exact ends_returned (.inl rfl)
  · rintro e x ⟨hscarce, l, rfl⟩ he
    exact .inr ⟨hscarce, l, he⟩
  · intro m t f rest e requested limit _ hstays hframes hstarves he
    have hmem : m.vm.config.memoryLimit = c.memoryLimit := hstays.1
    have hcode := hstays.2 f (by rw [hframes]; rfl)
    exact .inr ⟨fun hroomy => hroomy.not_starves hmem hcode hstarves, _, he⟩
  · intro f rest e requested limit hframes hstarves he
    obtain ⟨rfl, -⟩ := List.cons.inj hframes
    exact .inr ⟨fun hroomy => hroomy.not_starves rfl hsize hstarves, _, he⟩

/-- At its end the program returns what is on top of its stack. -/
lemma returns_line {h : Heap} {a : Array Attachment} {vm : Vm} {f : Frame}
    {lines : List Assembler.Line} {i : UInt8} {stack : List Value} (hvm : vm.Plain)
    (hquick : f.quick = false) (hr : (h.unitAt f.unit).Renders lines)
    (hl : lines[f.position]? = some (.op .ret i)) (hstack : f.stack = v :: stack) :
    Returns v ⟨h, a, vm, [f]⟩ := by
  have he : (Assembler.Line.op .ret i).effect f h vm.builtins = .ok (.leave v) := by
    simp only [Assembler.Line.effect, Frame.effect, hstack]
  exact ⟨_, (step_line hvm hquick hr hl he).trans rfl⟩

end Machine

/-! ### Workloads -/

namespace World

variable {w : World} {u : CodeUnit} {n : Nat} {map : OrderedMap}

/-- The world in which a new interpreter executes a new unit. -/
def launch (w : World) (u : CodeUnit) : World :=
  { (w.newUnit u).2 with heap := Builtins.installAll Builtins.table (w.newUnit u).2.heap }

/-- The builtins of the new interpreter. -/
def launchBuiltins (w : World) : Ref .mod := ⟨w.heap.namespaces.size, "builtins"⟩

lemma launch_heap (w : World) (u : CodeUnit) :
    (w.launch u).heap = Builtins.installAll Builtins.table (w.newUnit u).2.heap := by
  rw [launch]

lemma launch_extends (w : World) (hu : u.Checked) : Extends w (w.launch u) :=
  (newUnit_extends w hu).trans (Builtins.installAll_extends _ _)

lemma launch_unit (w : World) (u : CodeUnit) : (w.launch u).heap.unitAt w.heap.units.size = u := by
  have hlater := (Builtins.installAll_extends Builtins.table (w.newUnit u).2).units
  refine (hlater.same _ (lt_size_newUnit w u)).trans ?_
  show (w.heap.units.push u).getD w.heap.units.size default = u
  rw [getD_push, if_pos rfl]

/-- The new unit has not been quickened. -/
lemma launch_fresh (hw : w.Sound) (u : CodeUnit) :
    ((w.launch u).attachments.getD w.heap.units.size default).quickened = none := by
  show ((w.attachments.push {}).getD w.heap.units.size default).quickened = none
  rw [getD_push, if_pos hw.size.symm]

lemma launch_has (hh : w.heap.Has n map) (u : CodeUnit) : (w.launch u).heap.Has n map := by
  have hunit : (w.newUnit u).2.heap.Has n map := hh.of_eq rfl
  rw [launch_heap]
  exact Builtins.installAll_other Builtins.table hunit

lemma launch_binds {key : String} {v : Value} (hb : w.heap.Binds n key v) (u : CodeUnit) :
    (w.launch u).heap.Binds n key v := by
  obtain ⟨m, hm, hv⟩ := hb
  exact ⟨m, launch_has hm u, hv⟩

lemma launch_bound (w : World) (u : CodeUnit) {key : String}
    (hkey : key ∈ Builtins.table.map Prod.fst) :
    ∃ v, ((w.launch u).heap.namespaceAt w.launchBuiltins.id).get? key = some v := by
  obtain ⟨map, hmap, hbound⟩ := Builtins.installAll_self Builtins.table (w.newUnit u).2.heap
  obtain ⟨v, hv⟩ := Option.isSome_iff_exists.mp (hbound key hkey)
  refine ⟨v, ?_⟩
  rw [launch_heap, ← hv]
  exact hmap.get? key

end World

namespace Workload

open Assembler (Line)
open Machine (standing Leads Stays LimitExcused Returns)

/-- A new interpreter starts the workload. -/
def firstRun (wl : Workload) (c : Config) (w : World) : Progress :=
  match Vm.create c w.heap with
  | (vm, heap) => Machine.start { w with heap } vm wl.unit wl.globals

/-- The workload is built, and its first run by a new interpreter ends, with the value it says, or
at a limit that is lower than the default one. -/
def Delivers (build : Build Workload) (w : World) (c : Config) (v : Value) : Prop :=
  ∃ wl w', build.on w = (.ok wl, w') ∧ wl.expected = v ∧
    (wl.firstRun c w').Ends fun e => e.Delivers c v

/-- Assembled code with its number of parameters. -/
structure Assembled (u : CodeUnit) (params locals : UInt8) (lines : List Line) : Prop where
  checked : u.Checked
  argcount : u.argcount = params
  nlocals : u.nlocals = max locals params
  renders : u.Renders lines

/-- Lines that fit are assembled. -/
lemma exists_assembled (name : String) (params locals : UInt8) (lines : List Line)
    (hlength : lines.length ≤ 256)
    (hfits : ∀ l ∈ lines, l.fits (max locals params) lines.length) :
    ∃ u, Assembler.assemble name params locals lines = .ok u ∧ Assembled u params locals lines := by
  obtain ⟨u, hu, -, hargcount, hnlocals, hrenders⟩ :=
    Assembler.assemble_renders name params locals lines hlength hfits
  exact ⟨u, hu, Assembler.assemble_checked hu, hargcount, hnlocals, hrenders⟩

variable {build : Build Workload} {w w' : World} {main : List Line} {g : Ref .mod}
  {params locals : UInt8} {u : CodeUnit} {v : Value} {c : Config}

lemma Assembled.launched (hu : Assembled u params locals main) (w : World) :
    ((w.launch u).heap.unitAt w.heap.units.size).Renders main := by
  rw [w.launch_unit u]
  exact hu.renders

/-- The first run of a workload whose program was added last. -/
lemma firstRun_newUnit (wl : Workload) (c : Config) (w : World) (u : CodeUnit) :
    wl.firstRun c (w.newUnit u).2 =
      Machine.start (w.launch u) { config := c, builtins := w.launchBuiltins } wl.unit
        wl.globals := by
  rw [firstRun, Vm.create_eq]
  rfl

/-- A workload whose program was added last delivers what the program leads to. -/
theorem delivers_of_leads (hw : w'.Sound)
    (hbuild : ∃ wl : Workload, build.on w = (.ok wl, (w'.newUnit u).2) ∧
      wl.unit = w'.heap.units.size ∧ wl.globals = g ∧ wl.expected = v)
    (hu : Assembled u 0 locals main) (hlength : main.length ≤ 255) (hdepth : c.maxFrameDepth ≠ 0)
    (hl : Leads (Stays c) (LimitExcused c) (Returns v)
      (standing #[] (.tracer c w'.launchBuiltins 1) [] w'.heap.units.size g (w'.launch u).heap
        (Binding.slots (max locals 0).toNat []) 0)) :
    Delivers build w c v := by
  obtain ⟨wl, hon, hunit, rfl, hv⟩ := hbuild
  refine ⟨wl, _, hon, hv, ?_⟩
  have hat := w'.launch_unit u
  rw [firstRun_newUnit, hunit]
  refine Machine.start_delivers ((w'.launch_extends hu.checked).sound hw) hdepth ?_ ?_ ?_
  · rw [hat, hu.argcount]
  · rw [hat, hu.renders.size]
    exact hlength
  · rw [hat, hu.nlocals]
    exact hl

/-! ### Programs that call a function of their module -/

/-- A function that a module binds under a name, with its lines. -/
structure Linked (h : Heap) (g : Ref .mod) (name : String) (params : UInt8) (callee : List Line)
    (r : Ref .function) (fn : Function) : Prop where
  bound : h.Binds g.id name (.function r)
  function : h.functionAt r = fn
  globals : fn.globals = g
  code : Assembled (h.unitAt fn.unit) params 0 callee

/-- A name that the module binds. -/
lemma Linked.loadGlobal {h : Heap} {g b : Ref .mod} {name : String} {params : UInt8}
    {callee : List Line} {r : Ref .function} {fn : Function}
    (hk : Linked h g name params callee r fn) :
    Operation.loadGlobal (h.namespaceAt g.id) (h.namespaceAt b.id) name = .ok (.function r) := by
  rw [Operation.loadGlobal, hk.bound.get?]

open Build in
/-- Once a function has been built in a new module, a program can be built that calls it. -/
theorem exists_linked (hw : w.Sound) (module name : String) (params : UInt8)
    (callee : List Line) (hlength : callee.length ≤ 256)
    (hfits : ∀ l ∈ callee, l.fits (max 0 params) callee.length) :
    ∃ (w' : World) (g : Ref .mod), w'.Sound ∧
      (∀ {α : Type} (k : Ref .mod → Build α),
        (newModule module >>= fun g => define g name params callee >>= fun _ => k g).on w =
          (k g).on w') ∧
      ∃ r fn, fn.unit < w'.attachments.size ∧
        (w'.attachments.getD fn.unit default).quickened = none ∧
        ∀ u : CodeUnit, u.Checked → Linked (w'.launch u).heap g name params callee r fn := by
  obtain ⟨uc, hassemble, huc⟩ := exists_assembled name params 0 callee hlength hfits
  let w₁ := w.serve (.newModule module)
  let g : Ref .mod := ⟨w.heap.namespaces.size, module⟩
  have hw₁ : w₁.Sound := (World.serve_extends w rfl).sound hw
  have hopened : w₁.heap.Has g.id [] := w.heap.has_opened (r := .newModule module) rfl
  have hextends : World.Extends w (w₁.define g name uc) :=
    (World.serve_extends w rfl).trans (w₁.define_extends g name huc.checked)
  obtain ⟨hunit, hunitLt⟩ := w₁.define_unit g name uc
  obtain ⟨hfnLt, version, hfn⟩ := w₁.define_function g name uc
  have hbound : (w₁.define g name uc).heap.Binds g.id name _ := World.define_binds hopened uc
  refine ⟨w₁.define g name uc, g, hextends.sound hw, fun k => ?_, ⟨w₁.heap.functions.size, uc.name⟩,
    { unit := w₁.heap.units.size, globals := g, version }, ?_, ?_, fun u hu => ?_⟩
  · rw [on_bind, on_newModule]
    dsimp only
    rw [on_bind, on_define hassemble]
  · show w₁.heap.units.size < (w₁.attachments.push {}).size
    rw [Array.size_push, hw₁.size]
    exact Nat.lt_succ_self _
  · show ((w₁.attachments.push {}).getD w₁.heap.units.size default).quickened = none
    rw [getD_push, if_pos hw₁.size.symm]
  · have hlaunch := (w₁.define g name uc).launch_extends hu
    have hsame := hlaunch.units.same _ hunitLt
    refine ⟨World.launch_binds hbound u, (hlaunch.functions.same _ hfnLt).trans hfn, rfl, ?_⟩
    dsimp only
    rw [Heap.unitAt, hsame, ← Heap.unitAt, hunit]
    exact huc

end Workload

end AdaptiveVM
