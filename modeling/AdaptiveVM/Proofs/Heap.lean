import AdaptiveVM.Builtins
import AdaptiveVM.Proofs.Shapes

/-!
How a heap develops.

Whatever a program or its host does to a heap, the heap stays well formed and goes along `Later`.
The code units are added by the host alone; every other operation leaves them as they are.
-/

namespace AdaptiveVM

namespace Heap

structure WellFormed (h : Heap) : Prop where
  versioned : h.Versioned
  shaped : h.Shaped

/-- One heap comes from another by operations that add no code. -/
structure Develops (h h' : Heap) : Prop where
  units : h'.units = h.units
  keeps : h.WellFormed → h'.WellFormed ∧ Later h h'

variable {h h' h'' : Heap}

namespace Develops

lemma refl (h : Heap) : Develops h h := ⟨rfl, fun hw => ⟨hw, .refl h⟩⟩

lemma trans (a : Develops h h') (b : Develops h' h'') : Develops h h'' where
  units := b.units.trans a.units
  keeps hw := by
    obtain ⟨hw', hl⟩ := a.keeps hw
    obtain ⟨hw'', hl'⟩ := b.keeps hw'
    exact ⟨hw'', hl.trans hl'⟩

lemma of_evolves (he : Evolves h h') (hs : h.Shaped → h'.Shaped) (hu : h'.units = h.units) :
    Develops h h' where
  units := hu
  keeps hw := ⟨⟨(he hw.versioned).1, hs hw.shaped⟩, (he hw.versioned).2⟩

/-- An operation that leaves shapes, classes and instances alone. -/
lemma of_moves (hm : Moves h h') (hu : h'.units = h.units) (hs : h'.shapes = h.shapes)
    (hc : h'.classes = h.classes) (hi : h'.instances = h.instances) : Develops h h' :=
  of_evolves hm.evolves (fun hh => hh.of_eq hs hc hi) hu

end Develops

/-! ### The operations -/

lemma newNamespace_develops (h : Heap) : Develops h h.newNamespace.2 :=
  .of_moves (newNamespace_moves h) rfl rfl rfl rfl

lemma assign_develops (h : Heap) (n : Nat) (key : String) (value : Value) :
    Develops h (h.assign n key value) := by
  have hm := assign_moves h n key value
  unfold assign at hm ⊢
  split at hm
  · exact .of_moves hm rfl rfl rfl rfl
  · exact .of_moves hm rfl rfl rfl rfl

lemma remove_develops (h : Heap) (n : Nat) (key : String) : Develops h (h.remove n key).2 := by
  have hm := remove_moves h n key
  unfold remove at hm ⊢
  split at hm
  · exact .refl h
  · exact .of_moves hm rfl rfl rfl rfl

lemma newRoot_develops (h : Heap) : Develops h (h.newShape #[]).2 :=
  .of_evolves (newShape_moves h #[]).evolves (fun hh => hh.newShape fun _ => rfl) rfl

lemma units_extendShape (h : Heap) (s : Nat) (key : String) :
    (h.extendShape s key).2.units = h.units := by
  rcases extendShape_cases h s key with ⟨next, -, he⟩ | ⟨-, he⟩ | ⟨-, he⟩
  · rw [he]
  · rw [he]
    rfl
  · rw [he]

lemma extendShape_develops (h : Heap) (s : Nat) (key : String) :
    Develops h (h.extendShape s key).2 := by
  refine .of_evolves (extendShape_evolves h s key) (fun hh => ?_) (units_extendShape h s key)
  by_cases hs : s < h.shapes.size
  · exact (hh.extendShape (.inl hs) key).1
  · -- no transition leaves a place that is not in the table
    rcases extendShape_cases h s key with ⟨next, -, he⟩ | ⟨hlt, -⟩ | ⟨-, he⟩
    · rw [he]
      exact hh
    · exact absurd hlt hs
    · rw [he]
      exact hh

lemma setField_develops (h : Heap) (o : Ref .inst) (key : String) (value : Value) :
    Develops h (h.setField o key value) := by
  refine .of_evolves (setField_evolves h o key value) (fun hh => hh.setField o key value) ?_
  unfold setField
  split
  · rfl
  · exact units_extendShape h _ key

lemma newClass_develops (h : Heap) (name : String) : Develops h (h.newClass name).2 :=
  .of_evolves (newClass_evolves h name) (fun hh => hh.newClass name) rfl

lemma instantiate_develops (h : Heap) (c : Ref .cls) : Develops h (h.instantiate c).2 :=
  .of_evolves (Moves.evolves {}) (fun hh => hh.instantiate c) rfl

lemma newFunction_develops (h : Heap) {unit : Nat} (hu : unit < h.units.size) (globals : Ref .mod)
    (defaults : List Value) : Develops h (h.newFunction unit globals defaults).2 :=
  .of_moves (newFunction_moves h hu globals defaults) rfl rfl rfl rfl

lemma newBuiltin_develops (h : Heap) (name : String) (arity : Option UInt8) (p : Procedure) :
    Develops h (h.newBuiltin name arity p).2 :=
  .of_moves (newBuiltin_moves h name arity p) rfl rfl rfl rfl

lemma newSource_develops (h : Heap) (s : Random.Source) : Develops h (h.newSource s).2 :=
  .of_moves {} rfl rfl rfl rfl

lemma perform_develops (h : Heap) (p : Procedure) (args : List Value) :
    Develops h (h.perform p args).2 := by
  cases p with
  | compute f => exact .refl h
  | draw source => exact .of_moves {} rfl rfl rfl rfl

lemma invoke_develops (h : Heap) (b : Ref .builtin) (args : List Value) :
    Develops h (h.invoke b args).2 := by
  unfold invoke
  dsimp only
  split
  · exact perform_develops h _ args
  · split
    · exact perform_develops h _ args
    · exact .refl h

lemma putAttr_develops (h : Heap) (receiver : Value) (key : String) (value : Value) :
    Develops h (Operation.putAttr h receiver key value) := by
  unfold Operation.putAttr
  split
  · exact setField_develops h _ key value
  · exact assign_develops h _ key value
  · exact assign_develops h _ key value
  · exact .refl h

/-- New code is no change of what is there. -/
lemma newUnit_keeps (hw : h.WellFormed) (u : CodeUnit) :
    (h.newUnit u).2.WellFormed ∧ Later h (h.newUnit u).2 := by
  obtain ⟨hv, hl⟩ := (newUnit_moves h u).evolves hw.versioned
  exact ⟨⟨hv, hw.shaped.of_eq rfl rfl rfl⟩, hl⟩

/-- A heap without objects, wherever its sources stand. -/
lemma wellFormed_tokens (t : Tokens) : ({ tokens := t } : Heap).WellFormed where
  versioned :=
    { keys := TokenSource.covers_zero _
      shapes := TokenSource.covers_zero _
      functions := TokenSource.covers_zero _
      builtins := TokenSource.covers_zero _
      code := fun i hi => absurd hi (Nat.not_lt_zero i) }
  shaped :=
    { first := rfl
      roots := fun _ => ⟨.inr rfl, rfl⟩
      transitions := fun _ _ he => absurd he List.not_mem_nil
      fields := fun _ => ⟨.inr rfl, le_rfl⟩ }

lemma wellFormed_empty : ({} : Heap).WellFormed := wellFormed_tokens {}

end Heap

namespace Builtins

variable {h : Heap}

lemma register_develops (h : Heap) (m : Ref .mod) (name : String) (arity : Option UInt8)
    (f : List Value → Except Error Value) : h.Develops (register h m name arity f) :=
  (Heap.newBuiltin_develops h name arity _).trans (Heap.assign_develops _ m.id name _)

lemma foldl_register_develops (m : Ref .mod)
    (es : List (String × Option UInt8 × (List Value → Except Error Value))) (h : Heap) :
    h.Develops (es.foldl (fun h e => register h m e.1 e.2.1 e.2.2) h) := by
  induction es generalizing h with
  | nil => exact .refl h
  | cons e es ih => exact (register_develops h m _ _ _).trans (ih _)

lemma install_develops (h : Heap) : h.Develops (install h).2 := by
  unfold install
  generalize table = es
  exact (Heap.newNamespace_develops h).trans (foldl_register_develops _ es _)

end Builtins

end AdaptiveVM
