import AdaptiveVM.Proofs.Bindings

/-!
Instances and the stores that made them.

Transitions lead from the root of a class along the names of fields, and no shape is reached from
two others; so the shapes of a class form a tree, and a class and a list of names lead to one shape
at most. An instance stands where the names of its fields lead, in the order of their first stores,
and holds for each of them the value stored last. Shapes that are made directly may repeat a name,
but no instance gets there, since it looks a name up before it moves on.
-/

namespace AdaptiveVM

/-! ### Histories -/

/-- What has happened to an instance: its class, and all stores into its fields in turn. -/
structure Past where
  cls : Nat
  stores : List (String × Value) := []

namespace Past

/-- The names of the fields, in the order of their first stores. -/
def names (x : Past) : List String := (x.stores.map Prod.fst).eraseDups

/-- The value stored last under a name. -/
def last? (x : Past) (key : String) : Option Value := x.stores.reverse.lookup key

def store (x : Past) (key : String) (value : Value) : Past :=
  { x with stores := x.stores ++ [(key, value)] }

/-- The histories of all instances after a request. -/
def serve (xs : List Past) : Request → List Past
  | .instantiate c => xs ++ [{ cls := c.id }]
  | .setField o key value => xs.modify o.id (·.store key value)
  | _ => xs

/-- The histories of all instances after some requests. -/
def serveAll (xs : List Past) (rs : List Request) : List Past := rs.foldl serve xs

variable (x : Past) (key : String) (value : Value)

lemma names_store : (x.store key value).names =
    if key ∈ x.names then x.names else x.names ++ [key] := by
  have hsame : key ∈ x.names ↔ key ∈ x.stores.map Prod.fst := List.mem_eraseDups
  have happend : (x.store key value).names =
      x.names ++ ([key].removeAll (x.stores.map Prod.fst)).eraseDups := by
    simp [names, store, List.eraseDups_append]
  rw [happend]
  by_cases hk : key ∈ x.names
  · have hk' := hsame.mp hk
    simp [hk, List.removeAll, hk']
  · have hk' : key ∉ x.stores.map Prod.fst := fun h => hk (hsame.mpr h)
    have hkept : [key].removeAll (x.stores.map Prod.fst) = [key] := by
      rw [List.removeAll, List.filter_eq_self]
      simpa using hk'
    rw [hkept, if_neg hk]
    rfl

lemma last?_store (k : String) :
    (x.store key value).last? k = if k = key then some value else x.last? k := by
  have hrev : (x.store key value).stores.reverse = (key, value) :: x.stores.reverse := by
    simp [store]
  rw [last?, hrev, List.lookup_cons]
  by_cases hk : k = key
  · simp [hk]
  · have hne : (k == key) = false := by simpa using hk
    simp [hk, hne, last?]

lemma nodup_names : x.names.Nodup := by
  obtain ⟨cls, stores⟩ := x
  induction stores using List.reverseRecOn with
  | nil => exact List.nodup_nil
  | append_singleton stores e ih =>
    have hstep := names_store ⟨cls, stores⟩ e.1 e.2
    rw [store] at hstep
    rw [hstep]
    split
    · exact ih
    · next hk => exact List.nodup_append_comm.mp (List.nodup_cons.mpr ⟨hk, ih⟩)

/-- What has been stored under a name that is not one of the fields is nothing. -/
lemma last?_of_not_mem {key : String} (hk : key ∉ x.names) : x.last? key = none := by
  rw [names, List.mem_eraseDups, List.mem_map] at hk
  rw [last?, List.lookup_eq_none_iff]
  intro e he
  simp only [bne_iff_ne, ne_eq]
  rintro rfl
  exact hk ⟨e, List.mem_reverse.mp he, rfl⟩

end Past

/-! ### The trees of shapes -/

namespace Heap

variable {h h' h'' : Heap} {s t : Nat} {keys : List String}

/-- The root of the class at a place. -/
def rootAt (h : Heap) (c : Nat) : Nat := (h.classes.getD c default).root

/-- Where transitions lead from a shape along some names. -/
def walk? (h : Heap) (s : Nat) : List String → Option Nat
  | [] => some s
  | key :: keys => ((h.shapeAt s).next? key).bind fun next => h.walk? next keys

/-- Every class has a root of its own, and every shape is reached from one other at most. -/
structure ShapeForest (h : Heap) : Prop where
  planted : ∀ c < h.classes.size, h.rootAt c < h.shapes.size
  distinct : ∀ c < h.classes.size, ∀ c' < h.classes.size, h.rootAt c = h.rootAt c' → c = c'
  reached : ∀ s key next, (h.shapeAt s).next? key = some next → next < h.shapes.size
  parent : ∀ s key s' key' next, (h.shapeAt s).next? key = some next →
    (h.shapeAt s').next? key' = some next → s = s'

/-- Shapes have been added, and transitions between shapes. -/
structure Grows (h h' : Heap) : Prop where
  shapes : h.shapes.size ≤ h'.shapes.size
  same : ∀ s < h.shapes.size, h'.shapeToken s = h.shapeToken s ∧
    (h'.shapeAt s).keys = (h.shapeAt s).keys
  transitions : ∀ s key next, (h.shapeAt s).next? key = some next →
    (h'.shapeAt s).next? key = some next
  classes : h.classes.size ≤ h'.classes.size
  roots : ∀ c < h.classes.size, h'.rootAt c = h.rootAt c

namespace Grows

lemma refl (h : Heap) : Grows h h :=
  ⟨le_rfl, fun _ _ => ⟨rfl, rfl⟩, fun _ _ _ hn => hn, le_rfl, fun _ _ => rfl⟩

lemma trans (a : Grows h h') (b : Grows h' h'') : Grows h h'' where
  shapes := a.shapes.trans b.shapes
  same s hs := by
    obtain ⟨hid, hkeys⟩ := b.same s (hs.trans_le a.shapes)
    exact ⟨hid.trans (a.same s hs).1, hkeys.trans (a.same s hs).2⟩
  transitions s key next hn := b.transitions s key next (a.transitions s key next hn)
  classes := a.classes.trans b.classes
  roots c hc := (b.roots c (hc.trans_le a.classes)).trans (a.roots c hc)

/-- A walk is not led astray. -/
lemma walk? (hg : Grows h h') (hw : h.walk? s keys = some t) : h'.walk? s keys = some t := by
  induction keys generalizing s with
  | nil => exact hw
  | cons key keys ih =>
    obtain ⟨next, hn, hrest⟩ := Option.bind_eq_some_iff.mp hw
    rw [Heap.walk?, hg.transitions s key next hn, Option.bind_some]
    exact ih hrest

end Grows

lemma walk?_append (h : Heap) (s : Nat) (keys keys' : List String) :
    h.walk? s (keys ++ keys') = (h.walk? s keys).bind fun t => h.walk? t keys' := by
  induction keys generalizing s with
  | nil => rfl
  | cons key keys ih =>
    simp only [List.cons_append, walk?, Option.bind_assoc]
    exact congrArg _ (funext ih)

/-- The shape at the end of a walk has the names along it after those at its start. -/
lemma Shaped.keys_walk (hs : h.Shaped) (hw : h.walk? s keys = some t) :
    (h.shapeAt t).keys.toList = (h.shapeAt s).keys.toList ++ keys := by
  induction keys generalizing s with
  | nil =>
    obtain rfl := Option.some.inj hw
    rw [List.append_nil]
  | cons key keys ih =>
    obtain ⟨next, hn, hrest⟩ := Option.bind_eq_some_iff.mp hw
    have hkeys := (hs.transitions s (key, next) (mem_of_next? hn)).2
    simp only at hkeys
    rw [ih hrest, hkeys, Array.toList_push, List.append_assoc, List.singleton_append]

lemma ShapeForest.walk_lt (hf : h.ShapeForest) (hs : s < h.shapes.size)
    (hw : h.walk? s keys = some t) :
    t < h.shapes.size := by
  induction keys generalizing s with
  | nil => exact Option.some.inj hw ▸ hs
  | cons key keys ih =>
    obtain ⟨next, hn, hrest⟩ := Option.bind_eq_some_iff.mp hw
    exact ih (hf.reached s key next hn) hrest

/-- Walks along the same names to the same shape have begun at the same shape. -/
lemma ShapeForest.walk_inj (hf : h.ShapeForest) {s' : Nat} (hw : h.walk? s keys = some t)
    (hw' : h.walk? s' keys = some t) : s = s' := by
  induction keys generalizing s s' with
  | nil => exact (Option.some.inj hw).trans (Option.some.inj hw').symm
  | cons key keys ih =>
    obtain ⟨next, hn, hrest⟩ := Option.bind_eq_some_iff.mp hw
    obtain ⟨next', hn', hrest'⟩ := Option.bind_eq_some_iff.mp hw'
    obtain rfl := ih hrest hrest'
    exact hf.parent s key s' key next hn hn'

/-! ### Growing the trees -/

/-- The trees stay trees, and only grow. -/
def KeepsForest (h h' : Heap) : Prop := h.ShapeForest → h'.ShapeForest ∧ Grows h h'

lemma KeepsForest.trans (a : KeepsForest h h') (b : KeepsForest h' h'') : KeepsForest h h'' := by
  intro hf
  obtain ⟨hf', hg⟩ := a hf
  obtain ⟨hf'', hg'⟩ := b hf'
  exact ⟨hf'', hg.trans hg'⟩

lemma KeepsForest.of_eq (hs : h'.shapes = h.shapes) (hc : h'.classes = h.classes) :
    KeepsForest h h' := by
  intro hf
  have hat : h'.shapeAt = h.shapeAt := funext fun s => by rw [shapeAt, hs, shapeAt]
  have hroot : h'.rootAt = h.rootAt := funext fun c => by rw [rootAt, hc, rootAt]
  constructor
  · refine ⟨?_, ?_, ?_, ?_⟩
    · rw [hroot, hc, hs]
      exact hf.planted
    · rw [hroot, hc]
      exact hf.distinct
    · rw [hat, hs]
      exact hf.reached
    · rw [hat]
      exact hf.parent
  · refine ⟨by rw [hs], fun s _ => ?_, ?_, by rw [hc], fun c _ => by rw [hroot]⟩
    · rw [shapeToken, hat]
      exact ⟨rfl, rfl⟩
    · rw [hat]
      exact fun _ _ _ hn => hn

lemma newShape_keepsForest (h : Heap) (keys : Array String) :
    KeepsForest h (h.newShape keys).2 := by
  intro hf
  have hsize := size_shapes_newShape h keys
  -- nothing leads on from the new shape
  have hback (s : Nat) (key : String) (next : Nat)
      (hn : ((h.newShape keys).2.shapeAt s).next? key = some next) :
      (h.shapeAt s).next? key = some next := by
    rw [shapeAt_newShape] at hn
    split at hn
    · cases hn
    · exact hn
  constructor
  · refine ⟨fun c hc => ?_, hf.distinct, ?_, ?_⟩
    · have hlt := hf.planted c hc
      show h.rootAt c < _
      omega
    · intro s key next hn
      have hlt := hf.reached s key next (hback s key next hn)
      omega
    · intro s key s' key' next hn hn'
      exact hf.parent s key s' key' next (hback s key next hn) (hback s' key' next hn')
  · refine ⟨by omega, fun s hs => ?_, fun s key next hn => ?_, le_rfl, fun _ _ => rfl⟩
    · rw [shapeToken, shapeAt_newShape, if_neg (by omega)]
      exact ⟨rfl, rfl⟩
    · rw [shapeAt_newShape]
      split
      · next he =>
        rw [shapeAt_of_size_le (by omega)] at hn
        cases hn
      · exact hn

/-- One gets from a shape where one got before, or along the new transition. -/
lemma next?_withTransition (h : Heap) (s : Nat) (key : String) (next k : Nat) (key' : String) :
    ((h.withTransition s key next).shapeAt k).next? key' =
      if s = k ∧ k < h.shapes.size ∧ key' = key then some next
      else (h.shapeAt k).next? key' := by
  rw [shapeAt_withTransition]
  by_cases hk : s = k ∧ k < h.shapes.size
  · rw [if_pos hk, Shape.next?, List.lookup_cons]
    by_cases hkey : key' = key
    · simp [hk, hkey]
    · have hne : (key' == key) = false := by simpa using hkey
      simp [hkey, hne, Shape.next?]
  · rw [if_neg hk, if_neg fun hc => hk ⟨hc.1, hc.2.1⟩]

/-- A transition to a shape that nothing leads to. -/
lemma withTransition_keepsForest (h : Heap) (s : Nat) (key : String) {next : Nat}
    (hlt : next < h.shapes.size) (hfresh : ∀ k key', (h.shapeAt k).next? key' ≠ some next)
    (hs : (h.shapeAt s).next? key = none) : KeepsForest h (h.withTransition s key next) := by
  intro hf
  have hsize := h.size_shapes_withTransition s key next
  have hsame := h.withTransition_same s key next
  constructor
  · refine ⟨fun c hc => hsize ▸ hf.planted c hc, hf.distinct, ?_, ?_⟩
    · intro k key' n hn
      rw [hsize]
      rw [next?_withTransition] at hn
      split at hn
      · exact Option.some.inj hn ▸ hlt
      · exact hf.reached k key' n hn
    · intro k key' k' key'' n hn hn'
      rw [next?_withTransition] at hn hn'
      split at hn
      · next hnew =>
        obtain rfl := Option.some.inj hn
        split at hn'
        · next hnew' => exact hnew.1.symm.trans hnew'.1
        · exact absurd hn' (hfresh k' key'')
      · split at hn'
        · obtain rfl := Option.some.inj hn'
          exact absurd hn (hfresh k key')
        · exact hf.parent k key' k' key'' n hn hn'
  · refine ⟨hsize.ge, fun k _ => hsame k, fun k key' n hn => ?_, le_rfl, fun _ _ => rfl⟩
    rw [next?_withTransition]
    split
    · next hnew =>
      obtain ⟨rfl, -, rfl⟩ := hnew
      rw [hs] at hn
      cases hn
    · exact hn

lemma extendShape_keepsForest (h : Heap) (s : Nat) (key : String) :
    KeepsForest h (h.extendShape s key).2 := by
  intro hf
  rcases hn : (h.shapeAt s).next? key with _ | next
  · rcases extendShape_cases h s key with ⟨next, hsome, -⟩ | ⟨hlt, he⟩ | ⟨-, he⟩
    · rw [hn] at hsome
      cases hsome
    · -- a new shape, and the transition to it
      rw [he]
      have hnew := newShape_keepsForest h ((h.shapeAt s).keys.push key)
      refine (hnew.trans (withTransition_keepsForest _ s key ?_ (fun k key' hc => ?_) ?_)) hf
      · rw [size_shapes_newShape]
        omega
      · rw [shapeAt_newShape] at hc
        split at hc
        · cases hc
        · have hlt' := hf.reached k key' _ hc
          omega
      · rw [shapeAt_newShape, if_neg (by omega)]
        exact hn
    · rw [he]
      exact ⟨hf, .refl h⟩
  · rw [extendShape, hn]
    exact ⟨hf, .refl h⟩

/-- From a shape that is there, the name leads to the shape that is given as the next one. -/
lemma next?_extendShape (hs : s < h.shapes.size) (key : String) :
    ((h.extendShape s key).2.shapeAt s).next? key = some (h.extendShape s key).1 := by
  rcases extendShape_cases h s key with ⟨next, hn, he⟩ | ⟨-, he⟩ | ⟨hle, -⟩
  · rw [he]
    exact hn
  · rw [he]
    show (((h.newShape _).2.shapes.modify s _).getD s default).next? key = some h.shapes.size
    have hlt : s < (h.newShape ((h.shapeAt s).keys.push key)).2.shapes.size := by
      rw [size_shapes_newShape]
      omega
    rw [getD_modify, if_pos ⟨rfl, hlt⟩, Shape.next?, List.lookup_cons_self]
  · omega

section

variable {o : Ref .inst} {key : String}

lemma setField_of_some {i : Nat} (hi : (h.shapeOf o).indexOf? key = some i) (value : Value) :
    h.setField o key value = { h with instances := h.instances.modify o.id (·.put i value) } := by
  rw [setField, hi]

lemma setField_of_none (hi : (h.shapeOf o).indexOf? key = none) (value : Value) :
    h.setField o key value =
      { (h.extendShape (h.instanceAt o).shape key).2 with
        instances := (h.extendShape (h.instanceAt o).shape key).2.instances.modify o.id
          (·.grow (h.extendShape (h.instanceAt o).shape key).1 value) } := by
  rw [setField, hi]

end

lemma setField_keepsForest (h : Heap) (o : Ref .inst) (key : String) (value : Value) :
    KeepsForest h (h.setField o key value) := by
  unfold setField
  split
  · exact .of_eq rfl rfl
  · exact (extendShape_keepsForest h _ key).trans (.of_eq rfl rfl)

/-- A class takes a shape that is not the root of another one. -/
lemma addClass_keepsForest (h : Heap) (attributes : Nat) {root : Nat} (hlt : root < h.shapes.size)
    (hfresh : ∀ c < h.classes.size, h.rootAt c ≠ root) :
    KeepsForest h { h with classes := h.classes.push { attributes, root } } := by
  intro hf
  have hroot (c : Nat) : ((h.classes.push { attributes, root }).getD c default).root =
      if c = h.classes.size then root else h.rootAt c := by
    rw [getD_push]
    split <;> rfl
  have hsize : (h.classes.push { attributes, root }).size = h.classes.size + 1 := Array.size_push ..
  constructor
  · refine ⟨fun c hc => ?_, fun c hc c' hc' heq => ?_, hf.reached, hf.parent⟩
    · have hc' : c < h.classes.size + 1 := lt_of_lt_of_eq hc hsize
      rw [rootAt, hroot]
      split
      · exact hlt
      · exact hf.planted c (by omega)
    · replace hc : c < h.classes.size + 1 := lt_of_lt_of_eq hc hsize
      replace hc' : c' < h.classes.size + 1 := lt_of_lt_of_eq hc' hsize
      rw [rootAt, rootAt, hroot, hroot] at heq
      split at heq <;> split at heq
      · omega
      · exact absurd heq.symm (hfresh c' (by omega))
      · exact absurd heq (hfresh c (by omega))
      · exact hf.distinct c (by omega) c' (by omega) heq
  · refine ⟨le_rfl, fun _ _ => ⟨rfl, rfl⟩, fun _ _ _ hn => hn, ?_, fun c hc => ?_⟩
    · exact (Nat.le_succ _).trans hsize.ge
    · rw [rootAt, hroot, if_neg (by omega)]

lemma newClass_keepsForest (h : Heap) (name : String) : KeepsForest h (h.newClass name).2 := by
  intro hf
  have hns : KeepsForest h h.newNamespace.2 := .of_eq rfl rfl
  have hshape := newShape_keepsForest h.newNamespace.2 #[]
  refine ((hns.trans hshape).trans (addClass_keepsForest _ _ ?_ fun c hc => ?_)) hf
  · rw [size_shapes_newShape]
    exact Nat.lt_succ_self _
  · have hlt := hf.planted c hc
    exact hlt.ne

lemma serve_keepsForest (h : Heap) (r : Request) : KeepsForest h (h.serve r) := by
  cases r with
  | newModule name => exact .of_eq rfl rfl
  | newClass name => exact newClass_keepsForest h name
  | instantiate c => exact .of_eq rfl rfl
  | newShape => exact newShape_keepsForest h #[]
  | extendShape shape key => exact extendShape_keepsForest h shape key
  | newFunction unit globals defaults =>
    dsimp only [serve]
    split <;> exact .of_eq rfl rfl
  | newBuiltin name arity procedure => exact .of_eq rfl rfl
  | newSource source => exact .of_eq rfl rfl
  | assign n key value =>
    dsimp only [serve, assign]
    split <;> exact .of_eq rfl rfl
  | remove n key =>
    dsimp only [serve, remove]
    split <;> exact .of_eq rfl rfl
  | setField o key value => exact setField_keepsForest h o key value

lemma shapeForest_empty : ({} : Heap).ShapeForest where
  planted _ hc := absurd hc (Nat.not_lt_zero _)
  distinct _ hc := absurd hc (Nat.not_lt_zero _)
  reached s key next hn := by
    rw [shapeAt_of_size_le (Nat.zero_le s)] at hn
    cases hn
  parent s key s' key' next hn := by
    rw [shapeAt_of_size_le (Nat.zero_le s)] at hn
    cases hn

lemma serveAll_keepsForest (h : Heap) (rs : List Request) : KeepsForest h (h.serveAll rs) := by
  induction rs generalizing h with
  | nil => exact fun hf => ⟨hf, .refl h⟩
  | cons r rs ih => exact (serve_keepsForest h r).trans (ih _)

/-! ### Shapes have ids -/

/-- While the source lasts, every shape that is there has an id. -/
def Stamped (h : Heap) : Prop := h.tokens.shapes.Numbers h.shapes.size h.shapeToken

namespace Stamped

lemma empty : ({} : Heap).Stamped := TokenSource.Numbers.empty _

lemma of_eq (hh : h.Stamped) (ht : h'.tokens.shapes = h.tokens.shapes)
    (hs : h'.shapes = h.shapes) : h'.Stamped := by
  have htoken : h'.shapeToken = h.shapeToken := by
    funext s
    rw [shapeToken, shapeAt, hs, shapeToken, shapeAt]
  rw [Stamped, ht, hs, htoken]
  exact hh

lemma newShape (hh : h.Stamped) (keys : Array String) : (h.newShape keys).2.Stamped :=
  numbers_push (g := Shape.id) hh rfl

lemma withTransition (hh : h.Stamped) (s : Nat) (key : String) (next : Nat) :
    (h.withTransition s key next).Stamped := by
  refine TokenSource.Numbers.advance hh (.inl rfl) fun k hk => .inr ⟨?_, ?_⟩
  · rw [← h.size_shapes_withTransition s key next]
    exact hk
  · exact (h.withTransition_same s key next k).1

lemma extendShape (hh : h.Stamped) (s : Nat) (key : String) : (h.extendShape s key).2.Stamped := by
  rcases extendShape_cases h s key with ⟨next, -, he⟩ | ⟨-, he⟩ | ⟨-, he⟩
  · rw [he]
    exact hh
  · rw [he]
    exact (hh.newShape _).withTransition ..
  · rw [he]
    exact hh

lemma serve (hh : h.Stamped) (r : Request) : (h.serve r).Stamped := by
  cases r with
  | newClass name =>
    have hnames : h.newNamespace.2.Stamped := hh.of_eq rfl rfl
    exact (hnames.newShape #[]).of_eq rfl rfl
  | newShape => exact hh.newShape #[]
  | extendShape shape key => exact hh.extendShape shape key
  | setField o key value =>
    dsimp only [Heap.serve, setField]
    split
    · exact hh.of_eq rfl rfl
    · exact (hh.extendShape _ key).of_eq rfl rfl
  | newFunction unit globals defaults =>
    dsimp only [Heap.serve]
    split
    · exact hh.of_eq rfl rfl
    · exact hh
  | assign n key value =>
    dsimp only [Heap.serve, assign]
    split <;> exact hh.of_eq rfl rfl
  | remove n key =>
    dsimp only [Heap.serve, remove]
    split
    · exact hh
    · exact hh.of_eq rfl rfl
  | _ => exact hh.of_eq rfl rfl

lemma serveAll (hh : h.Stamped) (rs : List Request) : (h.serveAll rs).Stamped := by
  induction rs generalizing h with
  | nil => exact hh
  | cons r rs ih => exact ih (hh.serve r)

end Stamped

/-! ### Instances and their histories -/

/-- The position of a name among distinct ones. -/
lemma findIdx?_eq_some_iff {names : List String} (hd : names.Nodup) {key : String} {i : Nat} :
    names.findIdx? (· == key) = some i ↔ names[i]? = some key := by
  rw [List.findIdx?_eq_some_iff_getElem, List.getElem?_eq_some_iff]
  constructor
  · rintro ⟨hi, heq, -⟩
    exact ⟨hi, by simpa using heq⟩
  · rintro ⟨hi, heq⟩
    refine ⟨hi, by simpa using heq, fun j hj => ?_⟩
    have hne : names[j] ≠ names[i] := fun hc => hj.ne ((hd.getElem_inj_iff).mp hc)
    rw [heq] at hne
    simpa using hne

/-- The instance stands where the names of its fields lead, and holds what was stored last. -/
structure MatchesPast (h : Heap) (o : Instance) (x : Past) : Prop where
  cls : o.cls.id = x.cls
  there : x.cls < h.classes.size
  shape : h.walk? (h.rootAt x.cls) x.names = some o.shape
  fields : o.fields.toList.map some = x.names.map x.last?

namespace MatchesPast

variable {o : Instance} {x : Past}

lemma grows (ht : h.MatchesPast o x) (hg : Grows h h') : h'.MatchesPast o x where
  cls := ht.cls
  there := ht.there.trans_le hg.classes
  shape := by
    rw [hg.roots x.cls ht.there]
    exact hg.walk? ht.shape
  fields := ht.fields

lemma lt_size (ht : h.MatchesPast o x) (hf : h.ShapeForest) : o.shape < h.shapes.size :=
  hf.walk_lt (hf.planted x.cls ht.there) ht.shape

lemma keys_eq (ht : h.MatchesPast o x) (hs : h.Shaped) :
    (h.shapeAt o.shape).keys.toList = x.names := by
  have hroot : (h.shapeAt (h.rootAt x.cls)).keys = #[] := (hs.roots x.cls).2
  rw [hs.keys_walk ht.shape, hroot]
  rfl

lemma size_fields (ht : h.MatchesPast o x) : o.fields.size = x.names.length := by
  have hlen := congrArg List.length ht.fields
  simpa using hlen

lemma indexOf? (ht : h.MatchesPast o x) (hs : h.Shaped) (key : String) :
    (h.shapeAt o.shape).indexOf? key = x.names.findIdx? (· == key) := by
  rw [Shape.indexOf?, ← ht.keys_eq hs, ← List.findIdx?_toArray, Array.toArray_toList]

/-- The value at a position is the one stored last under the name there. -/
lemma value (ht : h.MatchesPast o x) (i : Nat) : o.fields[i]? = x.names[i]?.bind x.last? := by
  have hat : (o.fields.toList.map some)[i]? = (x.names.map x.last?)[i]? := by rw [ht.fields]
  rw [List.getElem?_map, List.getElem?_map, Array.getElem?_toList] at hat
  rcases hv : o.fields[i]? with _ | v <;> rcases hn : x.names[i]? with _ | key
  · rfl
  · simp [hv, hn] at hat
  · simp [hv, hn] at hat
  · simpa [hv, hn] using hat

lemma field? (ht : h.MatchesPast o x) (hs : h.Shaped) (key : String) :
    ((h.shapeAt o.shape).indexOf? key).bind (fun i => o.fields[i]?) = x.last? key := by
  rw [ht.indexOf? hs]
  rcases hi : x.names.findIdx? (· == key) with _ | i
  · have hk : key ∉ x.names := by
      intro hmem
      have hnone := List.findIdx?_eq_none_iff.mp hi key hmem
      simp at hnone
    rw [x.last?_of_not_mem hk]
    rfl
  · have hname := (findIdx?_eq_some_iff x.nodup_names).mp hi
    rw [Option.bind_some, ht.value, hname, Option.bind_some]

/-- A store under a name that is there. -/
lemma put (ht : h.MatchesPast o x) {key : String} {i : Nat} (hi : x.names[i]? = some key)
    (value : Value) : h.MatchesPast (o.put i value) (x.store key value) := by
  have hnames : (x.store key value).names = x.names := by
    rw [x.names_store, if_pos (List.mem_of_getElem? hi)]
  refine ⟨ht.cls, ht.there, by rw [hnames]; exact ht.shape, ?_⟩
  rw [hnames, Instance.put, Array.toList_setIfInBounds, List.map_set, ht.fields]
  refine List.ext_getElem? fun j => ?_
  rw [List.getElem?_set, List.getElem?_map, List.getElem?_map, List.length_map]
  by_cases hj : i = j
  · subst hj
    have hlt : i < x.names.length := (List.getElem?_eq_some_iff.mp hi).1
    rw [if_pos rfl, if_pos hlt, hi, Option.map_some, x.last?_store, if_pos rfl]
  · rw [if_neg hj]
    rcases hn : x.names[j]? with _ | k
    · rfl
    · -- another position has another name
      have hk : k ≠ key := by
        rintro rfl
        have hi' := (findIdx?_eq_some_iff x.nodup_names).mpr hi
        have hj' := (findIdx?_eq_some_iff x.nodup_names).mpr hn
        exact hj (Option.some.inj (hi'.symm.trans hj'))
      rw [Option.map_some, Option.map_some, x.last?_store, if_neg hk]

/-- A store under a new name, in a heap in which the name leads on to the next shape. -/
lemma grow (ht : h.MatchesPast o x) {key : String} {next : Nat} (hk : key ∉ x.names)
    (hn : (h.shapeAt o.shape).next? key = some next) (value : Value) :
    h.MatchesPast (o.grow next value) (x.store key value) := by
  have hnames : (x.store key value).names = x.names ++ [key] := by rw [x.names_store, if_neg hk]
  refine ⟨ht.cls, ht.there, ?_, ?_⟩
  · show h.walk? (h.rootAt x.cls) (x.store key value).names = some next
    rw [hnames, walk?_append, ht.shape, Option.bind_some, walk?, hn]
    rfl
  · have hold : x.names.map (x.store key value).last? = x.names.map x.last? := by
      refine List.map_congr_left fun k hmem => ?_
      rw [x.last?_store, if_neg]
      rintro rfl
      exact hk hmem
    rw [hnames, Instance.grow, Array.toList_push, List.map_append, List.map_append, hold,
      ht.fields]
    simp [x.last?_store]

end MatchesPast

/-- The instances are there in turn, and each tells its own history. -/
structure Follows (h : Heap) (xs : List Past) : Prop where
  forest : h.ShapeForest
  stamped : h.Stamped
  wellFormed : h.WellFormed
  count : h.instances.size = xs.length
  tells : ∀ i x, xs[i]? = some x → h.MatchesPast (h.instances.getD i default) x

lemma follows_empty : ({} : Heap).Follows [] where
  forest := shapeForest_empty
  stamped := .empty
  wellFormed := wellFormed_empty
  count := rfl
  tells i x hx := by cases hx

namespace Follows

variable {xs : List Past}

/-- Whatever leaves the instances alone. -/
lemma keep (hf : h.Follows xs) (hd : Develops h h') (hc : KeepsForest h h')
    (hs : h'.Stamped) (hi : h'.instances = h.instances) : h'.Follows xs := by
  obtain ⟨hforest, hg⟩ := hc hf.forest
  refine ⟨hforest, hs, (hd.keeps hf.wellFormed).1, by rw [hi]; exact hf.count, fun i x hx => ?_⟩
  rw [hi]
  exact (hf.tells i x hx).grows hg

lemma instantiate (hf : h.Follows xs) {c : Ref .cls} (hc : c.id < h.classes.size) :
    (h.instantiate c).2.Follows (xs ++ [{ cls := c.id }]) := by
  have hsame : KeepsForest h (h.instantiate c).2 := .of_eq rfl rfl
  obtain ⟨hforest, hg⟩ := hsame hf.forest
  refine ⟨hforest, hf.stamped, ((instantiate_develops h c).keeps hf.wellFormed).1, ?_,
    fun i x hx => ?_⟩
  · show (h.instances.push _).size = _
    rw [Array.size_push, hf.count, List.length_append]
    rfl
  · show MatchesPast _ ((h.instances.push _).getD i default) x
    rw [getD_push, hf.count]
    rcases Nat.lt_trichotomy i xs.length with hi | rfl | hi
    · rw [if_neg hi.ne]
      rw [List.getElem?_append_left hi] at hx
      exact (hf.tells i x hx).grows hg
    · rw [List.getElem?_concat_length] at hx
      obtain rfl := Option.some.inj hx
      rw [if_pos rfl]
      exact ⟨rfl, hc, rfl, rfl⟩
    · rw [List.getElem?_eq_none (by rw [List.length_append, List.length_singleton]; omega)] at hx
      cases hx

/-- An instance changes, and so does its history. -/
lemma modify (hf : h.Follows xs) (o : Nat) {f : Instance → Instance} {g : Past → Past}
    (hw : ({ h with instances := h.instances.modify o f } : Heap).WellFormed)
    (ht : ∀ x, xs[o]? = some x → h.MatchesPast (f (h.instances.getD o default)) (g x)) :
    ({ h with instances := h.instances.modify o f } : Heap).Follows (xs.modify o g) := by
  have hsame : KeepsForest h { h with instances := h.instances.modify o f } := .of_eq rfl rfl
  obtain ⟨hforest, hg⟩ := hsame hf.forest
  refine ⟨hforest, hf.stamped, hw, ?_, fun i x hx => ?_⟩
  · rw [List.length_modify, ← hf.count]
    exact Array.size_modify ..
  · rw [List.getElem?_modify] at hx
    obtain ⟨x, hx', rfl⟩ := Option.map_eq_some_iff.mp hx
    have hlt : i < h.instances.size := by
      rw [hf.count]
      exact (List.getElem?_eq_some_iff.mp hx').1
    rw [getD_modify]
    by_cases ho : o = i
    · subst ho
      rw [if_pos ⟨rfl, hlt⟩, if_pos rfl]
      exact (ht x hx').grows hg
    · rw [if_neg fun hc => ho hc.1, if_neg ho]
      exact (hf.tells i x hx').grows hg

lemma setField (hf : h.Follows xs) (o : Ref .inst) (key : String) (value : Value) :
    (h.setField o key value).Follows (xs.modify o.id (·.store key value)) := by
  have hs := hf.wellFormed.shaped
  have hw := ((setField_develops h o key value).keeps hf.wellFormed).1
  rcases hi : (h.shapeOf o).indexOf? key with _ | i
  · -- the instance goes where the name leads
    rw [setField_of_none hi] at hw ⊢
    have hext := hf.keep (extendShape_develops h (h.instanceAt o).shape key)
      (extendShape_keepsForest h _ key) (hf.stamped.extendShape _ key)
      (Shaped.instances_extendShape ..)
    refine hext.modify o.id hw fun x hx => ?_
    have ht := hf.tells o.id x hx
    have hk : key ∉ x.names := by
      intro hmem
      have hnone := List.findIdx?_eq_none_iff.mp ((ht.indexOf? hs key).symm.trans hi) key hmem
      simp at hnone
    have hnext := next?_extendShape (ht.lt_size hf.forest) key
    have ht' := hext.tells o.id x hx
    rw [Shaped.instances_extendShape] at ht' ⊢
    exact ht'.grow hk hnext value
  · rw [setField_of_some hi] at hw ⊢
    refine hf.modify o.id hw fun x hx => ?_
    have ht := hf.tells o.id x hx
    have hname := (findIdx?_eq_some_iff x.nodup_names).mp ((ht.indexOf? hs key).symm.trans hi)
    exact ht.put hname value

end Follows

/-! ### Heaps made by requests -/

/-- Whether a request for an instance is one for a class that is there. -/
def grounds (h : Heap) : Request → Bool
  | .instantiate c => c.id < h.classes.size
  | _ => true

/-- Whether all requests for instances are, when their turn comes. -/
def groundsAll (h : Heap) : List Request → Bool
  | [] => true
  | r :: rs => h.grounds r && (h.serve r).groundsAll rs

namespace Follows

variable {xs : List Past}

lemma serve (hf : h.Follows xs) (r : Request) (hr : h.grounds r) :
    (h.serve r).Follows (Past.serve xs r) := by
  have hkeep (hi : (h.serve r).instances = h.instances) : (h.serve r).Follows xs :=
    hf.keep (serve_develops h r) (serve_keepsForest h r) (hf.stamped.serve r) hi
  cases r with
  | newModule name => exact hkeep rfl
  | newClass name => exact hkeep rfl
  | instantiate c => exact hf.instantiate (by simpa [grounds] using hr)
  | newShape => exact hkeep rfl
  | extendShape shape key => exact hkeep (Shaped.instances_extendShape ..)
  | newFunction unit globals defaults =>
    refine hkeep ?_
    dsimp only [Heap.serve]
    split <;> rfl
  | newBuiltin name arity procedure => exact hkeep rfl
  | newSource source => exact hkeep rfl
  | assign n key value =>
    refine hkeep ?_
    dsimp only [Heap.serve, assign]
    split <;> rfl
  | remove n key =>
    refine hkeep ?_
    dsimp only [Heap.serve, remove]
    split <;> rfl
  | setField o key value => exact hf.setField o key value

lemma serveAll (hf : h.Follows xs) (rs : List Request) (hrs : h.groundsAll rs) :
    (h.serveAll rs).Follows (Past.serveAll xs rs) := by
  induction rs generalizing h xs with
  | nil => exact hf
  | cons r rs ih =>
    rw [groundsAll, Bool.and_eq_true] at hrs
    exact ih (hf.serve r hrs.1) hrs.2

end Follows

/-- The instance reads as its history tells. -/
structure Reads (h : Heap) (o : Ref .inst) (x : Past) : Prop where
  cls : (h.instanceAt o).cls.id = x.cls
  names : (h.shapeOf o).keys.toList = x.names
  distinct : (h.shapeOf o).keys.toList.Nodup
  size : (h.instanceAt o).fields.size = (h.shapeOf o).keys.size
  field : ∀ key, h.field? o key = x.last? key
  guarded : ∀ id i, h.fieldIfShape? o id i =
    if id = (h.shapeOf o).id then x.names[i]?.bind x.last? else none
  present : ∀ id i, (h.fieldIfShape? o id i).isSome ↔
    id = (h.shapeOf o).id ∧ i < (h.shapeOf o).keys.size

namespace Follows

variable {xs : List Past} {o p : Ref .inst} {x y : Past}

lemma reads (hf : h.Follows xs) (hx : xs[o.id]? = some x) : h.Reads o x := by
  have hs := hf.wellFormed.shaped
  have ht : h.MatchesPast (h.instanceAt o) x := hf.tells o.id x hx
  have hnames : (h.shapeOf o).keys.toList = x.names := ht.keys_eq hs
  have hsize : (h.instanceAt o).fields.size = (h.shapeOf o).keys.size := by
    rw [ht.size_fields, ← hnames, Array.length_toList]
  refine ⟨ht.cls, hnames, hnames ▸ x.nodup_names, hsize, ht.field? hs, fun id i => ?_,
    fun id i => ?_⟩
  · simp only [fieldIfShape?, fieldAt?, ht.value, eq_comm]
  · rw [← hsize, fieldIfShape?, fieldAt?]
    by_cases hid : (h.shapeOf o).id = id
    · simp [hid]
    · simp [hid, Ne.symm hid]

/-- Equal ids are ids of one place, which determines the class and the names that lead there. -/
lemma shape_id_eq_iff (hf : h.Follows xs)
    (hroom : h.tokens.shapes.upcoming ≠ TokenSource.limit) (hx : xs[o.id]? = some x)
    (hy : xs[p.id]? = some y) :
    (h.shapeOf o).id = (h.shapeOf p).id ↔ x.cls = y.cls ∧ x.names = y.names := by
  have hs := hf.wellFormed.shaped
  have htx : h.MatchesPast (h.instanceAt o) x := hf.tells o.id x hx
  have hty : h.MatchesPast (h.instanceAt p) y := hf.tells p.id y hy
  constructor
  · intro hid
    have hne := hf.stamped.numbered hroom _ (htx.lt_size hf.forest)
    have hplace : (h.instanceAt o).shape = (h.instanceAt p).shape :=
      hf.wellFormed.versioned.shapes.inj _ _ hid hne
    have hnames : x.names = y.names := by rw [← htx.keys_eq hs, ← hty.keys_eq hs, hplace]
    have hwalk := htx.shape
    rw [hnames, hplace] at hwalk
    have hroot := hf.forest.walk_inj hwalk hty.shape
    exact ⟨hf.forest.distinct x.cls htx.there y.cls hty.there hroot, hnames⟩
  · rintro ⟨hcls, hnames⟩
    have hwalk := htx.shape
    rw [hcls, hnames, hty.shape] at hwalk
    rw [shapeOf, shapeOf, Option.some.inj hwalk]

end Follows

/-- While the source lasts, an id names one shape at all times, with the same keys. -/
lemma shape_id_lasts (early mid late : List Request)
    (hroom : (madeBy (early ++ mid ++ late)).tokens.shapes.upcoming ≠ TokenSource.limit)
    (hs : s < (madeBy early).shapes.size) :
    (madeBy (early ++ mid)).shapeToken s = (madeBy early).shapeToken s ∧
      ∀ t, (madeBy (early ++ mid)).shapeToken t = (madeBy early).shapeToken s →
        ((madeBy (early ++ mid)).shapeAt t).keys = ((madeBy early).shapeAt s).keys := by
  obtain ⟨hforest, -⟩ := serveAll_keepsForest {} early shapeForest_empty
  obtain ⟨-, hg⟩ := serveAll_keepsForest (madeBy early) mid hforest
  have hlater := madeBy_later (early ++ mid) late
  have hroom' := TokenSource.ne_limit_of_issued hlater.shapesIssued hroom
  have hroom'' := TokenSource.ne_limit_of_issued (madeBy_later early mid).shapesIssued hroom'
  have hne : (madeBy early).shapeToken s ≠ 0 := (Stamped.empty.serveAll early).numbered hroom'' s hs
  rw [← madeBy_append] at hg
  refine ⟨(hg.same s hs).1, fun t ht => ?_⟩
  have hinj := (madeBy_wellFormed (early ++ mid)).versioned.shapes.inj
  obtain rfl := hinj s t ((hg.same s hs).1.trans ht.symm) ((hg.same s hs).1 ▸ hne)
  exact (hg.same s hs).2

/-- **Instances read as their stores tell, and their shape ids tell them apart.** The keys of its
shape are the names of its fields in the order of their first stores, with the values stored last;
and ids are equal just for the same names in the same order in one class. -/
theorem instances_read_as_stored (rs : List Request) (hclasses : ({} : Heap).groundsAll rs)
    (hroom : (madeBy rs).tokens.shapes.upcoming ≠ TokenSource.limit) :
    (madeBy rs).instances.size = (Past.serveAll [] rs).length ∧
    (∀ o x, (Past.serveAll [] rs)[o.id]? = some x → (madeBy rs).Reads o x) ∧
    (∀ o x p y, (Past.serveAll [] rs)[o.id]? = some x → (Past.serveAll [] rs)[p.id]? = some y →
      (((madeBy rs).shapeOf o).id = ((madeBy rs).shapeOf p).id ↔
        x.cls = y.cls ∧ x.names = y.names)) ∧
    ∀ early mid late, rs = early ++ mid ++ late → ∀ s < (madeBy early).shapes.size,
      (madeBy (early ++ mid)).shapeToken s = (madeBy early).shapeToken s ∧
      ∀ t, (madeBy (early ++ mid)).shapeToken t = (madeBy early).shapeToken s →
        ((madeBy (early ++ mid)).shapeAt t).keys = ((madeBy early).shapeAt s).keys := by
  have hf : (madeBy rs).Follows (Past.serveAll [] rs) := follows_empty.serveAll rs hclasses
  refine ⟨hf.count, fun o x hx => hf.reads hx, fun o x p y hx hy => ?_, ?_⟩
  · exact hf.shape_id_eq_iff hroom hx hy
  · rintro early mid late rfl s hs
    exact shape_id_lasts early mid late hroom hs

/-- Stores into instances of two classes in turn, with a shape that repeats a name beside them. -/
theorem instances_read_as_stored_interleaved :
    let rs : List Request :=
      [.newClass "A", .newClass "B", .instantiate ⟨0, "A"⟩, .instantiate ⟨1, "B"⟩,
        .instantiate ⟨0, "A"⟩, .setField ⟨0, "A"⟩ "x" (.int 1), .extendShape 2 "x",
        .setField ⟨1, "B"⟩ "x" (.int 2), .setField ⟨2, "A"⟩ "x" (.int 3),
        .setField ⟨2, "A"⟩ "y" (.int 4), .setField ⟨0, "A"⟩ "x" (.int 5),
        .setField ⟨0, "A"⟩ "y" (.int 6)]
    ({} : Heap).groundsAll rs ∧ (madeBy rs).tokens.shapes.upcoming ≠ TokenSource.limit ∧
      (madeBy rs).field? ⟨0, "A"⟩ "x" = some (.int 5) ∧
      ((madeBy rs).shapeOf ⟨0, "A"⟩).id = ((madeBy rs).shapeOf ⟨2, "A"⟩).id ∧
      ((madeBy rs).shapeOf ⟨0, "A"⟩).id ≠ ((madeBy rs).shapeOf ⟨1, "B"⟩).id := by
  intro rs
  have hclasses : ({} : Heap).groundsAll rs := by decide +kernel
  have hroom : (madeBy rs).tokens.shapes.upcoming ≠ TokenSource.limit := by decide +kernel
  obtain ⟨-, hreads, hids, -⟩ := instances_read_as_stored rs hclasses hroom
  refine ⟨hclasses, hroom, ?_, ?_, ?_⟩
  · exact (hreads ⟨0, "A"⟩ _ rfl).field "x"
  · exact (hids ⟨0, "A"⟩ _ ⟨2, "A"⟩ _ rfl rfl).mpr ⟨rfl, rfl⟩
  · intro hc
    exact absurd ((hids ⟨0, "A"⟩ _ ⟨1, "B"⟩ _ rfl rfl).mp hc).1 Nat.zero_ne_one

end Heap

end AdaptiveVM
