import AdaptiveVM.Proofs.Versions

/-!
Shapes describe their instances.

A transition leads to a shape with one key more, and an instance moves along transitions while
it stores one field more; so an instance always has a value for every key of its shape. A place
that is not in the table of shapes has no keys, and only place `0` can be spoken of before it is
there.
-/

namespace AdaptiveVM.Heap

variable {h h' : Heap} {s : Nat} {keys : Array String}

/-- A place that an instance or a class can speak of. -/
def Placed (h : Heap) (s : Nat) : Prop := s < h.shapes.size ∨ s = 0

/-- Shapes describe their instances. -/
structure Shaped (h : Heap) : Prop where
  first : (h.shapeAt 0).keys = #[]
  roots : ∀ c, h.Placed (h.classes.getD c default).root ∧
    (h.shapeAt (h.classes.getD c default).root).keys = #[]
  transitions : ∀ s, ∀ e ∈ (h.shapeAt s).transitions,
    e.2 < h.shapes.size ∧ (h.shapeAt e.2).keys = (h.shapeAt s).keys.push e.1
  fields : ∀ o, h.Placed (h.instances.getD o default).shape ∧
    (h.shapeAt (h.instances.getD o default).shape).keys.size ≤
      (h.instances.getD o default).fields.size

lemma mem_of_next? {x : Shape} {key : String} {next : Nat} (hn : x.next? key = some next) :
    (key, next) ∈ x.transitions := by
  obtain ⟨before, after, he, -⟩ := List.lookup_eq_some_iff.mp hn
  rw [he]
  exact List.mem_append_right _ List.mem_cons_self

lemma shapeAt_of_size_le (hs : h.shapes.size ≤ s) : h.shapeAt s = default := by
  simp [shapeAt, Array.getD_eq_getD_getElem?, hs]

lemma shapeAt_newShape (h : Heap) (keys : Array String) (s : Nat) :
    (h.newShape keys).2.shapeAt s =
      if s = h.shapes.size then { id := h.tokens.shapes.draw.1, keys } else h.shapeAt s :=
  getD_push ..

lemma size_shapes_newShape (h : Heap) (keys : Array String) :
    (h.newShape keys).2.shapes.size = h.shapes.size + 1 :=
  Array.size_push ..

lemma Placed.newShape (hs : h.Placed s) (keys : Array String) : (h.newShape keys).2.Placed s := by
  rcases hs with hs | hs
  · exact .inl (by rw [size_shapes_newShape]; omega)
  · exact .inr hs

/-- A new shape changes no keys that anyone can speak of. -/
lemma keys_newShape (hk : h.shapes.size = 0 → keys = #[]) (hs : h.Placed s) :
    ((h.newShape keys).2.shapeAt s).keys = (h.shapeAt s).keys := by
  rw [shapeAt_newShape]
  split
  · next he =>
    have h0 : h.shapes.size = 0 := by rcases hs with hs | hs <;> omega
    rw [shapeAt_of_size_le (by omega), hk h0]
    rfl
  · rfl

namespace Shaped

lemma newShape (hh : h.Shaped) (hk : h.shapes.size = 0 → keys = #[]) :
    (h.newShape keys).2.Shaped where
  first := by rw [keys_newShape hk (.inr rfl), hh.first]
  roots c := ⟨(hh.roots c).1.newShape keys, by
    rw [← (hh.roots c).2]
    exact keys_newShape hk (hh.roots c).1⟩
  transitions s e he := by
    rw [shapeAt_newShape] at he
    split at he
    · simp at he
    · next hne =>
      obtain ⟨hlt, hkeys⟩ := hh.transitions s e he
      rw [size_shapes_newShape, shapeAt_newShape, if_neg (by omega), shapeAt_newShape, if_neg hne]
      exact ⟨by omega, hkeys⟩
  fields o := by
    obtain ⟨hp, hsize⟩ := hh.fields o
    refine ⟨hp.newShape keys, ?_⟩
    show ((h.newShape keys).2.shapeAt (h.instances.getD o default).shape).keys.size ≤ _
    rw [keys_newShape hk hp]
    exact hsize

/-- Only the keys of shapes, their transitions, and who speaks of which shape matter. -/
lemma of_keys (hh : h.Shaped) (hsize : h'.shapes.size = h.shapes.size)
    (hkeys : ∀ s, (h'.shapeAt s).keys = (h.shapeAt s).keys)
    (htrans : ∀ s, ∀ e ∈ (h'.shapeAt s).transitions,
      e.2 < h.shapes.size ∧ (h.shapeAt e.2).keys = (h.shapeAt s).keys.push e.1)
    (hclasses : h'.classes = h.classes)
    (hfields : ∀ o, h.Placed (h'.instances.getD o default).shape ∧
      (h.shapeAt (h'.instances.getD o default).shape).keys.size ≤
        (h'.instances.getD o default).fields.size) : h'.Shaped where
  first := by rw [hkeys, hh.first]
  roots c := by
    rw [hclasses, hkeys, Placed, hsize]
    exact hh.roots c
  transitions s e he := by
    rw [hsize, hkeys, hkeys]
    exact htrans s e he
  fields o := by
    rw [hkeys, Placed, hsize]
    exact hfields o

/-- A transition to a shape with one key more. -/
lemma withTransition (hh : h.Shaped) (s : Nat) {key : String} {next : Nat}
    (hlt : next < h.shapes.size) (hkeys : (h.shapeAt next).keys = (h.shapeAt s).keys.push key) :
    (h.withTransition s key next).Shaped := by
  refine hh.of_keys (size_shapes_withTransition ..)
    (fun k => (h.withTransition_same s key next k).2) (fun k e he => ?_) rfl hh.fields
  rw [shapeAt_withTransition] at he
  split at he
  · next hc =>
    obtain ⟨rfl, -⟩ := hc
    rcases List.mem_cons.mp he with rfl | he
    · exact ⟨hlt, hkeys⟩
    · exact hh.transitions s e he
  · exact hh.transitions k e he

/-- Where appending a field leads, there is one key more, or nothing has been appended. -/
lemma extendShape (hh : h.Shaped) (hs : h.Placed s) (key : String) :
    (h.extendShape s key).2.Shaped ∧ (h.extendShape s key).2.Placed (h.extendShape s key).1 ∧
      ((h.extendShape s key).2.shapeAt (h.extendShape s key).1).keys.size ≤
        (h.shapeAt s).keys.size + 1 := by
  rcases extendShape_cases h s key with ⟨next, hn, he⟩ | ⟨hlt, he⟩ | ⟨-, he⟩
  · -- a transition that is there
    obtain ⟨hlt, hkeys⟩ := hh.transitions s (key, next) (mem_of_next? hn)
    rw [he]
    refine ⟨hh, .inl hlt, ?_⟩
    simp only at hkeys
    rw [hkeys, Array.size_push]
  · -- a new shape, which cannot be the first one
    have hnew : (h.newShape ((h.shapeAt s).keys.push key)).2.Shaped := hh.newShape (by omega)
    have hlen := size_shapes_newShape h ((h.shapeAt s).keys.push key)
    have hself : (h.newShape ((h.shapeAt s).keys.push key)).2.shapeAt h.shapes.size =
        { id := h.tokens.shapes.draw.1, keys := (h.shapeAt s).keys.push key } := by
      rw [shapeAt_newShape, if_pos rfl]
    have hold : (h.newShape ((h.shapeAt s).keys.push key)).2.shapeAt s = h.shapeAt s := by
      rw [shapeAt_newShape, if_neg (by omega)]
    rw [he]
    refine ⟨hnew.withTransition s (by omega) (by rw [hself, hold]), .inl ?_, ?_⟩
    · rw [size_shapes_withTransition]
      omega
    · rw [shapeAt_withTransition, if_neg (by omega), hself, Array.size_push]
  · rw [he]
    exact ⟨hh, hs, Nat.le_succ _⟩

lemma instances_extendShape (h : Heap) (s : Nat) (key : String) :
    (h.extendShape s key).2.instances = h.instances := by
  rcases extendShape_cases h s key with ⟨next, -, he⟩ | ⟨-, he⟩ | ⟨-, he⟩
  · rw [he]
  · rw [he]
    rfl
  · rw [he]

/-- An instance changes its fields, and keeps a value for every key of its shape. -/
lemma modifyInstance (hh : h.Shaped) (o : Nat) (f : Instance → Instance)
    (hp : h.Placed (f (h.instances.getD o default)).shape)
    (hf : (h.shapeAt (f (h.instances.getD o default)).shape).keys.size ≤
      (f (h.instances.getD o default)).fields.size) :
    ({ h with instances := h.instances.modify o f } : Heap).Shaped := by
  refine hh.of_keys rfl (fun _ => rfl) hh.transitions rfl fun k => ?_
  show h.Placed ((h.instances.modify o f).getD k default).shape ∧
    (h.shapeAt ((h.instances.modify o f).getD k default).shape).keys.size ≤
      ((h.instances.modify o f).getD k default).fields.size
  rw [getD_modify]
  split
  · next hc =>
    obtain ⟨rfl, -⟩ := hc
    exact ⟨hp, hf⟩
  · exact hh.fields k

lemma setField (hh : h.Shaped) (o : Ref .inst) (key : String) (value : Value) :
    (h.setField o key value).Shaped := by
  obtain ⟨hp, hsize⟩ := hh.fields o.id
  unfold Heap.setField
  split
  · refine hh.modifyInstance o.id _ hp ?_
    show (h.shapeAt (h.instances.getD o.id default).shape).keys.size ≤
      ((h.instances.getD o.id default).fields.setIfInBounds _ value).size
    rw [Array.size_setIfInBounds]
    exact hsize
  · -- the instance moves on with the shape
    obtain ⟨hnew, hplaced, hkeys⟩ := hh.extendShape hp key
    refine hnew.modifyInstance o.id _ hplaced ?_
    have hsame := instances_extendShape h (h.instanceAt o).shape key
    show _ ≤ (((h.extendShape (h.instanceAt o).shape key).2.instances.getD o.id
      default).fields.push value).size
    rw [Array.size_push, hsame]
    exact hkeys.trans (Nat.succ_le_succ hsize)

lemma instantiate (hh : h.Shaped) (c : Ref .cls) : (h.instantiate c).2.Shaped := by
  refine hh.of_keys rfl (fun _ => rfl) hh.transitions rfl fun k => ?_
  obtain ⟨hp, hkeys⟩ := hh.roots c.id
  show h.Placed
      ((h.instances.push { cls := c, shape := (h.classAt c).root }).getD k default).shape ∧
    (h.shapeAt ((h.instances.push { cls := c, shape := (h.classAt c).root }).getD k
      default).shape).keys.size ≤
      ((h.instances.push { cls := c, shape := (h.classAt c).root }).getD k default).fields.size
  rw [getD_push]
  split
  · refine ⟨hp, ?_⟩
    show (h.shapeAt (h.classes.getD c.id default).root).keys.size ≤ 0
    rw [hkeys]
    exact le_rfl
  · exact hh.fields k

/-- A class takes a root of its own. -/
lemma addClass (hh : h.Shaped) (attributes : Nat) {root : Nat} (hp : h.Placed root)
    (hkeys : (h.shapeAt root).keys = #[]) :
    ({ h with classes := h.classes.push { attributes, root } } : Heap).Shaped where
  first := hh.first
  roots c := by
    show h.Placed ((h.classes.push { attributes, root }).getD c default).root ∧
      (h.shapeAt ((h.classes.push { attributes, root }).getD c default).root).keys = #[]
    rw [getD_push]
    split
    · exact ⟨hp, hkeys⟩
    · exact hh.roots c
  transitions := hh.transitions
  fields := hh.fields

/-- Whatever leaves shapes, classes and instances alone. -/
lemma of_eq (hh : h.Shaped) (hs : h'.shapes = h.shapes) (hc : h'.classes = h.classes)
    (hi : h'.instances = h.instances) : h'.Shaped := by
  have hat : ∀ s, h'.shapeAt s = h.shapeAt s := fun s => by rw [shapeAt, hs, shapeAt]
  refine hh.of_keys (by rw [hs]) (fun s => by rw [hat]) (fun s e he => ?_) hc fun o => ?_
  · rw [hat] at he
    exact hh.transitions s e he
  · rw [hi]
    exact hh.fields o

lemma newClass (hh : h.Shaped) (name : String) : (h.newClass name).2.Shaped := by
  have hns : h.newNamespace.2.Shaped := hh.of_eq rfl rfl rfl
  have hroot : (h.newNamespace.2.newShape #[]).2.Shaped := hns.newShape fun _ => rfl
  refine hroot.addClass _ (.inl ?_) ?_
  · show h.shapes.size < (h.newNamespace.2.newShape #[]).2.shapes.size
    rw [size_shapes_newShape]
    exact Nat.lt_succ_self _
  · show ((h.newNamespace.2.newShape #[]).2.shapeAt h.shapes.size).keys = #[]
    rw [shapeAt_newShape]
    exact congrArg Shape.keys (if_pos rfl)

end Shaped

end AdaptiveVM.Heap
