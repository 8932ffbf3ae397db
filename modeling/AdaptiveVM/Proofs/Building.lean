import AdaptiveVM.Proofs.Bindings
import AdaptiveVM.Proofs.Lines
import AdaptiveVM.Workload

/-!
Building.

A workload is built from requests to the heap and from units. They only add to the world: what was
there is there afterwards, in its old place. The module that a workload runs against binds just the
names that the workload has bound in it, and a new interpreter has all its builtins.
-/

namespace AdaptiveVM

/-! ### Tables that are added to -/

/-- One table goes on where another one ends. -/
structure Grown {α : Type} [Inhabited α] (xs ys : Array α) : Prop where
  size : xs.size ≤ ys.size
  same : ∀ i < xs.size, ys.getD i default = xs.getD i default

namespace Grown

variable {α : Type} [Inhabited α] {xs ys zs : Array α}

lemma refl (xs : Array α) : Grown xs xs := ⟨le_rfl, fun _ _ => rfl⟩

lemma of_eq (h : ys = xs) : Grown xs ys := h ▸ refl xs

lemma trans (a : Grown xs ys) (b : Grown ys zs) : Grown xs zs where
  size := a.size.trans b.size
  same i hi := (b.same i (hi.trans_le a.size)).trans (a.same i hi)

lemma push (xs : Array α) (x : α) : Grown xs (xs.push x) where
  size := by
    rw [Array.size_push]
    omega
  same i hi := by rw [getD_push, if_neg (by omega)]

lemma getElem? (hg : Grown xs ys) {i : Nat} {x : α} (hx : xs[i]? = some x) : ys[i]? = some x := by
  obtain ⟨hlt, rfl⟩ := Array.getElem?_eq_some_iff.mp hx
  have hsame := hg.same i hlt
  have hlt' := hlt.trans_le hg.size
  rw [Array.getD_eq_getD_getElem?, Array.getD_eq_getD_getElem?, hx,
    Array.getElem?_eq_getElem hlt'] at hsame
  exact Array.getElem?_eq_some_iff.mpr ⟨hlt', hsame⟩

end Grown

/-- The request leaves shapes and instances as they are. -/
def Request.adds : Request → Bool
  | .extendShape .. | .setField .. => false
  | _ => true

namespace World

/-- Things have been added, and nothing else has changed apart from the bindings of names. -/
structure Extends (w w' : World) : Prop where
  units : Grown w.heap.units w'.heap.units
  functions : Grown w.heap.functions w'.heap.functions
  classes : Grown w.heap.classes w'.heap.classes
  shapes : Grown w.heap.shapes w'.heap.shapes
  attachments : Grown w.attachments w'.attachments
  sound : w.Sound → w'.Sound

/-- The world after a request. -/
def serve (w : World) (r : Request) : World := { w with heap := w.heap.serve r }

lemma heap_serve (w : World) (r : Request) : (w.serve r).heap = w.heap.serve r := rfl

variable {w w' w'' : World}

namespace Extends

lemma refl (w : World) : Extends w w :=
  ⟨.refl _, .refl _, .refl _, .refl _, .refl _, fun hw => hw⟩

lemma trans (a : Extends w w') (b : Extends w' w'') : Extends w w'' where
  units := a.units.trans b.units
  functions := a.functions.trans b.functions
  classes := a.classes.trans b.classes
  shapes := a.shapes.trans b.shapes
  attachments := a.attachments.trans b.attachments
  sound hw := b.sound (a.sound hw)

end Extends

lemma serve_extends (w : World) {r : Request} (hr : r.adds) : Extends w (w.serve r) := by
  have hsound (hw : w.Sound) : (w.serve r).Sound := hw.develop (w.heap.serve_develops r)
  have hunits : (w.serve r).heap.units = w.heap.units := (w.heap.serve_develops r).units
  suffices hs : Grown w.heap.functions (w.serve r).heap.functions ∧
      Grown w.heap.classes (w.serve r).heap.classes ∧
      Grown w.heap.shapes (w.serve r).heap.shapes from
    ⟨.of_eq hunits, hs.1, hs.2.1, hs.2.2, .refl _, hsound⟩
  unfold serve
  cases r with
  | newModule name => exact ⟨.refl _, .refl _, .refl _⟩
  | newClass name => exact ⟨.refl _, .push _ _, .push _ _⟩
  | instantiate c => exact ⟨.refl _, .refl _, .refl _⟩
  | newShape => exact ⟨.refl _, .refl _, .push _ _⟩
  | extendShape shape key => cases hr
  | newFunction unit globals defaults =>
    dsimp only [Heap.serve]
    split
    · exact ⟨.push _ _, .refl _, .refl _⟩
    · exact ⟨.refl _, .refl _, .refl _⟩
  | newBuiltin name arity procedure => exact ⟨.refl _, .refl _, .refl _⟩
  | newSource source => exact ⟨.refl _, .refl _, .refl _⟩
  | assign n key value =>
    dsimp only [Heap.serve, Heap.assign]
    split <;> exact ⟨.refl _, .refl _, .refl _⟩
  | remove n key =>
    dsimp only [Heap.serve, Heap.remove]
    split <;> exact ⟨.refl _, .refl _, .refl _⟩
  | setField o key value => cases hr

lemma newUnit_extends (w : World) {u : CodeUnit} (hu : u.Checked) : Extends w (w.newUnit u).2 :=
  ⟨.push _ _, .refl _, .refl _, .refl _, .push _ _, fun hw => hw.newUnit hu⟩

end World

lemma Assembler.assemble_checked {name : String} {params locals : UInt8} {lines : List Line}
    {u : CodeUnit} (h : assemble name params locals lines = .ok u) : u.Checked := by
  unfold assemble at h
  split at h
  · exact build_checked h
  · cases h

/-! ### Bound names -/

namespace OrderedMap

variable (m : OrderedMap) (key : String) (value : Value) (k : String)

lemma lookup_replace : (m.map fun e => if e.1 = key then (key, value) else e).lookup k =
    if k = key then (m.lookup key).map fun _ => value else m.lookup k := by
  induction m with
  | nil => simp
  | cons e m ih =>
    obtain ⟨k', v⟩ := e
    rw [List.map_cons]
    by_cases hk : k' = key
    · subst hk
      by_cases hkey : k = k'
      · simp [hkey]
      · have hne : (k == k') = false := by simpa using hkey
        simp only [if_true, List.lookup_cons, hne, ih, if_neg hkey]
    · have hne : (key == k') = false := by simpa using Ne.symm hk
      by_cases hkey : k = k'
      · simp [hkey, hk]
      · have hne' : (k == k') = false := by simpa using hkey
        simp only [if_neg hk, List.lookup_cons, hne, hne', ih]

lemma lookup_bind : (m.bind key value).lookup k = if k = key then some value else m.lookup k := by
  rw [bind]
  split
  · next hsome =>
    obtain ⟨v, hv⟩ := Option.isSome_iff_exists.mp hsome
    rw [lookup_replace, hv]
    rfl
  · next hnone =>
    have hm : m.lookup key = none := Option.not_isSome_iff_eq_none.mp hnone
    rw [List.lookup_append]
    by_cases hkey : k = key
    · rw [hkey, hm, if_pos rfl, Option.none_or, List.lookup_cons_self]
    · have hne : (k == key) = false := by simpa using hkey
      simp only [if_neg hkey, List.lookup_cons, hne, List.lookup_nil, Option.or_none]

end OrderedMap

namespace Heap

/-- A namespace is there, and binds just the names of a map. -/
structure Has (h : Heap) (n : Nat) (m : OrderedMap) : Prop where
  there : n < h.namespaces.size
  tidy : (h.namespaceAt n).Tidy
  bindings : (h.namespaceAt n).bindings = m

variable {h h' : Heap} {n : Nat} {m : OrderedMap}

lemma Has.get? (hh : h.Has n m) (key : String) : (h.namespaceAt n).get? key = m.lookup key := by
  rw [← hh.bindings, hh.tidy.lookup_bindings]

lemma Has.serve (hh : h.Has n m) (r : Request) : (h.serve r).Has n (m.served n r) := by
  have hs := serve_serves h r
  have hold := hs.old n hh.there
  refine ⟨?_, ?_, ?_⟩
  · have hsize := hs.size
    have hlt := hh.there
    split at hsize <;> omega
  · rw [hold]
    exact hh.tidy.served n _ r
  · rw [hold, hh.tidy.bindings_served, hh.bindings]

/-- A request that makes a namespace makes an empty one. -/
lemma has_opened (h : Heap) {r : Request} (hr : r.opens) :
    (h.serve r).Has h.namespaces.size [] := by
  have hs := serve_serves h r
  have hlt : h.namespaces.size < (h.serve r).namespaces.size := by
    rw [hs.size, if_pos hr]
    exact Nat.lt_succ_self _
  have hnew := hs.new h.namespaces.size le_rfl
  rw [if_pos hlt] at hnew
  refine ⟨hlt, ?_, ?_⟩
  · rw [hnew]
    exact .empty _
  · rw [hnew]
    rfl

lemma Has.of_eq (hh : h.Has n m) (hn : h'.namespaces = h.namespaces) : h'.Has n m := by
  have hat : h'.namespaceAt n = h.namespaceAt n := by rw [namespaceAt, hn, namespaceAt]
  exact ⟨hn ▸ hh.there, hat ▸ hh.tidy, hat ▸ hh.bindings⟩

/-- A namespace binds a name to a value. -/
def Binds (h : Heap) (n : Nat) (key : String) (v : Value) : Prop :=
  ∃ m, h.Has n m ∧ m.lookup key = some v

variable {key : String} {v : Value}

lemma Binds.get? (hb : h.Binds n key v) : (h.namespaceAt n).get? key = some v := by
  obtain ⟨m, hm, hv⟩ := hb
  rw [hm.get?, hv]

lemma Binds.of_eq (hb : h.Binds n key v) (hn : h'.namespaces = h.namespaces) :
    h'.Binds n key v := by
  obtain ⟨m, hm, hv⟩ := hb
  exact ⟨m, hm.of_eq hn, hv⟩

lemma Has.binds_assign (hh : h.Has n m) (key : String) (v : Value) :
    (h.serve (.assign n key v)).Binds n key v := by
  refine ⟨_, hh.serve (.assign n key v), ?_⟩
  rw [OrderedMap.served, if_pos rfl, OrderedMap.lookup_bind, if_pos rfl]

/-- A module more. -/
lemma Binds.newModule (hb : h.Binds n key v) (name : String) :
    (h.serve (.newModule name)).Binds n key v := by
  obtain ⟨m, hm, hv⟩ := hb
  exact ⟨m, hm.serve (.newModule name), hv⟩

/-- Another name is bound. -/
lemma Binds.assign (hb : h.Binds n key v) {key' : String} (hk : key ≠ key') (n' : Nat)
    (v' : Value) : (h.serve (.assign n' key' v')).Binds n key v := by
  obtain ⟨m, hm, hv⟩ := hb
  refine ⟨_, hm.serve (.assign n' key' v'), ?_⟩
  rw [OrderedMap.served]
  split
  · rw [OrderedMap.lookup_bind, if_neg hk, hv]
  · exact hv

end Heap

/-! ### Interpreters -/

namespace Builtins

/-- A table of builtins: names, numbers of arguments and bodies. -/
abbrev Table := List (String × Option UInt8 × (List Value → Except Error Value))

variable {h : Heap} {m : Ref .mod} {n : Nat} {map : OrderedMap}

/-- Makes the builtins of a table. -/
def registerAll (m : Ref .mod) (ts : Table) (h : Heap) : Heap :=
  ts.foldl (fun h e => register h m e.1 e.2.1 e.2.2) h

/-- What requests that only add keep, making builtins keeps. -/
lemma registerAll_keeps {P : Heap → Prop} (hP : ∀ h r, Request.adds r → P h → P (h.serve r))
    (m : Ref .mod) (ts : Table) (hh : P h) : P (registerAll m ts h) := by
  induction ts generalizing h with
  | nil => exact hh
  | cons e ts ih =>
    have hmade := hP h (.newBuiltin e.1 e.2.1 (.compute e.2.2)) rfl hh
    exact ih (hP _ (.assign m.id e.1 (.builtin ⟨h.builtins.size, e.1⟩)) rfl hmade)

lemma register_has (hh : h.Has n map)
    (e : String × Option UInt8 × (List Value → Except Error Value)) :
    (register h m e.1 e.2.1 e.2.2).Has n
      (if m.id = n then map.bind e.1 (.builtin ⟨h.builtins.size, e.1⟩) else map) :=
  (hh.serve (.newBuiltin e.1 e.2.1 (.compute e.2.2))).serve
    (.assign m.id e.1 (.builtin ⟨h.builtins.size, e.1⟩))

lemma registerAll_other (hn : m.id ≠ n) (ts : Table) (hh : h.Has n map) :
    (registerAll m ts h).Has n map := by
  induction ts generalizing h with
  | nil => exact hh
  | cons e ts ih =>
    have hnext := register_has (m := m) hh e
    rw [if_neg hn] at hnext
    exact ih hnext

/-- All names of the table are bound in the end. -/
lemma registerAll_self (ts : Table) (hh : h.Has m.id map) :
    ∃ map', (registerAll m ts h).Has m.id map' ∧
      ∀ key, (map.lookup key).isSome ∨ key ∈ ts.map Prod.fst → (map'.lookup key).isSome := by
  induction ts generalizing h map with
  | nil => exact ⟨map, hh, fun key hkey => hkey.resolve_right (List.not_mem_nil)⟩
  | cons e ts ih =>
    have hnext := register_has (m := m) hh e
    rw [if_pos rfl] at hnext
    obtain ⟨map', hmap', hbound⟩ := ih hnext
    refine ⟨map', hmap', fun key hkey => hbound key ?_⟩
    rw [OrderedMap.lookup_bind]
    by_cases hk : key = e.1
    · rw [if_pos hk]
      exact .inl rfl
    · rw [if_neg hk]
      rcases hkey with hold | hmem
      · exact .inl hold
      · rcases List.mem_cons.mp hmem with heq | hmem
        · exact absurd heq hk
        · exact .inr hmem

end Builtins

/-- A module with the builtins of a table. -/
def Builtins.installAll (ts : Table) (h : Heap) : Heap :=
  registerAll ⟨h.namespaces.size, "builtins"⟩ ts (h.serve (.newModule "builtins"))

namespace Builtins

variable {h : Heap} {n : Nat} {map : OrderedMap}

lemma installAll_keeps {P : Heap → Prop} (hP : ∀ h r, Request.adds r → P h → P (h.serve r))
    (ts : Table) (hh : P h) : P (installAll ts h) :=
  registerAll_keeps hP _ ts (hP h (.newModule "builtins") rfl hh)

lemma installAll_extends (ts : Table) (w : World) :
    World.Extends w { w with heap := installAll ts w.heap } :=
  installAll_keeps (P := fun h => World.Extends w { w with heap := h })
    (fun h _ hr he => he.trans (World.serve_extends { w with heap := h } hr)) ts (.refl w)

lemma installAll_other (ts : Table) (hh : h.Has n map) : (installAll ts h).Has n map :=
  registerAll_other hh.there.ne' ts (hh.serve (.newModule "builtins"))

lemma installAll_self (ts : Table) (h : Heap) :
    ∃ map, (installAll ts h).Has h.namespaces.size map ∧
      ∀ key ∈ ts.map Prod.fst, (map.lookup key).isSome := by
  obtain ⟨map, hmap, hbound⟩ := registerAll_self (m := ⟨h.namespaces.size, "builtins"⟩) ts
    (h.has_opened (r := .newModule "builtins") rfl)
  exact ⟨map, hmap, fun key hkey => hbound key (.inr hkey)⟩

end Builtins

lemma Vm.create_eq (c : Config) (h : Heap) :
    create c h = ({ config := c, builtins := ⟨h.namespaces.size, "builtins"⟩ },
      Builtins.installAll Builtins.table h) :=
  rfl

/-! ### Building step by step -/

namespace World

variable {w : World} {n : Nat} {map : OrderedMap}

lemma serve_newFunction {unit : Nat} (hu : unit < w.heap.units.size) (m : Ref .mod)
    (defaults : List Value) :
    w.serve (.newFunction unit m defaults) =
      { w with heap := (w.heap.newFunction unit m defaults).2 } := by
  rw [serve, Heap.serve, if_pos hu]

lemma lt_size_newUnit (w : World) (u : CodeUnit) :
    w.heap.units.size < (w.newUnit u).2.heap.units.size := by
  show _ < (w.heap.units.push u).size
  rw [Array.size_push]
  exact Nat.lt_succ_self _

/-- A function of a unit, bound in a module under a name. -/
def define (w : World) (m : Ref .mod) (name : String) (u : CodeUnit) : World :=
  ((w.newUnit u).2.serve (.newFunction w.heap.units.size m [])).serve
    (.assign m.id name (.function ⟨w.heap.functions.size, u.name⟩))

lemma define_extends (w : World) (m : Ref .mod) (name : String) {u : CodeUnit} (hu : u.Checked) :
    Extends w (w.define m name u) :=
  ((newUnit_extends w hu).trans (serve_extends _ rfl)).trans (serve_extends _ rfl)

lemma define_binds {m : Ref .mod} (hh : w.heap.Has m.id map) {name : String} (u : CodeUnit) :
    (w.define m name u).heap.Binds m.id name (.function ⟨w.heap.functions.size, u.name⟩) := by
  have hunit : (w.newUnit u).2.heap.Has m.id map := hh.of_eq rfl
  exact (hunit.serve (.newFunction w.heap.units.size m [])).binds_assign ..

lemma define_unit (w : World) (m : Ref .mod) (name : String) (u : CodeUnit) :
    (w.define m name u).heap.unitAt w.heap.units.size = u ∧
      w.heap.units.size < (w.define m name u).heap.units.size := by
  have hunits : (w.define m name u).heap.units = w.heap.units.push u :=
    (Heap.serve_develops _ _).units.trans (Heap.serve_develops _ _).units
  rw [Heap.unitAt, hunits, getD_push, if_pos rfl, Array.size_push]
  exact ⟨rfl, Nat.lt_succ_self _⟩

lemma define_function (w : World) (m : Ref .mod) (name : String) (u : CodeUnit) :
    w.heap.functions.size < (w.define m name u).heap.functions.size ∧
      ∃ version, (w.define m name u).heap.functions.getD w.heap.functions.size default =
        { unit := w.heap.units.size, globals := m, defaults := [], version } := by
  have hfunctions : (w.define m name u).heap.functions =
      w.heap.functions.push { unit := w.heap.units.size, globals := m, defaults := []
                              version := w.heap.tokens.functions.draw.1 } := by
    rw [define, serve_newFunction (lt_size_newUnit w u)]
    dsimp only [serve, Heap.serve, Heap.assign]
    split <;> rfl
  rw [hfunctions, Array.size_push, getD_push, if_pos rfl]
  exact ⟨Nat.lt_succ_self _, _, rfl⟩

end World

namespace Workload.Build

variable {α β : Type} {w w' : World} {x : Build α} {f : α → Build β} {u : CodeUnit}

lemma on_bind (x : Build α) (f : α → Build β) (w : World) :
    (x >>= f).on w =
      match x.on w with
      | (.ok v, w') => (f v).on w'
      | (.error e, w') => (.error e, w') := by
  unfold Build.on
  rw [ExceptT.run_bind, StateT.run_bind]
  rcases x.run.run w with ⟨e | v, w'⟩
  · rfl
  · rfl

lemma on_newModule (name : String) (w : World) :
    (newModule name).on w = (.ok ⟨w.heap.namespaces.size, name⟩, w.serve (.newModule name)) :=
  rfl

lemma on_newClass (name : String) (w : World) :
    (onHeap (·.newClass name)).on w =
      (.ok ⟨w.heap.classes.size, name⟩, w.serve (.newClass name)) :=
  rfl

lemma on_newSource (source : Random.Source) (w : World) :
    (onHeap (·.newSource source)).on w = (.ok w.heap.sources.size, w.serve (.newSource source)) :=
  rfl

lemma on_newBuiltin (name : String) (arity : Option UInt8) (procedure : Procedure) (w : World) :
    (onHeap (·.newBuiltin name arity procedure)).on w =
      (.ok ⟨w.heap.builtins.size, name⟩, w.serve (.newBuiltin name arity procedure)) :=
  rfl

lemma on_assign (n : Nat) (key : String) (value : Value) (w : World) :
    (assign n key value).on w = (.ok (), w.serve (.assign n key value)) :=
  rfl

lemma on_assignClass (c : Ref .cls) (key : String) (value : Value) (w : World) :
    (onHeap fun h => ((), h.assign (h.classAt c).attributes key value)).on w =
      (.ok (), w.serve (.assign (w.heap.classAt c).attributes key value)) :=
  rfl

lemma on_newFunction (unit : Nat) (m : Ref .mod) (defaults : List Value) (w : World) :
    (onHeap (·.newFunction unit m defaults)).on w =
      (.ok ⟨w.heap.functions.size, (w.heap.unitAt unit).name⟩,
        { w with heap := (w.heap.newFunction unit m defaults).2 }) :=
  rfl

lemma on_code {name : String} {params locals : UInt8} {lines : List Assembler.Line}
    (hu : Assembler.assemble name params locals lines = .ok u) (w : World) :
    (code name params locals lines).on w = (.ok w.heap.units.size, (w.newUnit u).2) := by
  unfold code
  rw [hu]
  rfl

lemma on_define {name : String} {params : UInt8} {lines : List Assembler.Line}
    (hu : Assembler.assemble name params 0 lines = .ok u) (m : Ref .mod) (w : World) :
    (define m name params lines).on w = (.ok (), w.define m name u) := by
  have hname : ((w.newUnit u).2.heap.unitAt w.heap.units.size).name = u.name := by
    show ((w.heap.units.push u).getD w.heap.units.size default).name = u.name
    rw [getD_push, if_pos rfl]
  unfold define
  rw [on_bind, on_code hu]
  dsimp only
  rw [on_bind, on_newFunction]
  dsimp only
  rw [hname, on_assign, World.define, World.serve_newFunction (World.lt_size_newUnit w u)]
  rfl

end Workload.Build

end AdaptiveVM
