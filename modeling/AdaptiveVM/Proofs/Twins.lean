import AdaptiveVM.Proofs.Soundness

/-!
Heaps that differ by where their tokens started.

A token is drawn for what it will be compared with, never for its number. Two heaps are twins if
they hold the same objects and each token of the one is a fixed distance away from the token of the
other, the distance being that of its kind. Operations keep heaps twins as long as no source comes
to its end, and no answer of an operation tells twins apart.
-/

namespace AdaptiveVM

/-! ### Tokens at a distance -/

/-- The kinds of things that tokens stand for. -/
inductive TokenKind where
  | keys
  | functions
  | builtins
  | shapes
  deriving DecidableEq

namespace Tokens

/-- The source of a kind. -/
def source (t : Tokens) : TokenKind → TokenSource
  | .keys => t.keys
  | .functions => t.functions
  | .builtins => t.builtins
  | .shapes => t.shapes

/-- No source has come to its end. -/
def Lasting (t : Tokens) : Prop := ∀ k, (t.source k).upcoming ≠ TokenSource.limit

/-- The sources after a token of a kind has been drawn. -/
def spend (t : Tokens) : TokenKind → Tokens
  | .keys => { t with keys := t.keys.draw.2 }
  | .functions => { t with functions := t.functions.draw.2 }
  | .builtins => { t with builtins := t.builtins.draw.2 }
  | .shapes => { t with shapes := t.shapes.draw.2 }

lemma source_spend (t : Tokens) (k k' : TokenKind) :
    (t.spend k).source k' = if k' = k then (t.source k).draw.2 else t.source k' := by
  cases k <;> cases k' <;> rfl

lemma Lasting.of_spend {t : Tokens} {k : TokenKind} (h : (t.spend k).Lasting) : t.Lasting := by
  intro k' hc
  refine h k' ?_
  rw [source_spend]
  split
  · next hk =>
    subst hk
    rw [TokenSource.draw, if_pos hc]
    exact hc
  · exact hc

end Tokens

namespace Token

/-- Two tokens, the second so much further on than the first. -/
structure Shifted (d : ℤ) (t t' : Token) : Prop where
  left : t ≠ 0
  right : t' ≠ 0
  distance : (t'.toNat : ℤ) = t.toNat + d

/-- Two tokens at a distance, or both times "no version". -/
def Apart (d : ℤ) (t t' : Token) : Prop := t = 0 ∧ t' = 0 ∨ Shifted d t t'

variable {d : ℤ} {t t' x x' : Token} {s s' : TokenSource}

lemma apart_zero (d : ℤ) : Apart d 0 0 := .inl ⟨rfl, rfl⟩

lemma Apart.eq_zero_iff (h : Apart d t t') : t' = 0 ↔ t = 0 := by
  rcases h with ⟨rfl, rfl⟩ | h
  · exact Iff.rfl
  · exact iff_of_false h.right h.left

lemma Apart.shifted (h : Apart d t t') (hne : t ≠ 0) : Shifted d t t' :=
  h.resolve_left fun hz => hne hz.1

/-- **Comparisons do not see the distance**, between tokens of one kind. -/
lemma Apart.eq_iff (h : Apart d t t') (hx : Shifted d x x') : t' = x' ↔ t = x := by
  rcases h with ⟨rfl, rfl⟩ | h
  · exact iff_of_false hx.right.symm hx.left.symm
  · rw [← UInt32.toNat_inj, ← UInt32.toNat_inj]
    have ht := h.distance
    have hd := hx.distance
    omega

/-- Sources at a distance hand out tokens at that distance, and stay at it. -/
lemma Shifted.draw (h : Shifted d s.upcoming s'.upcoming) (hne : s.upcoming ≠ TokenSource.limit)
    (hne' : s'.upcoming ≠ TokenSource.limit) :
    Shifted d s.draw.1 s'.draw.1 ∧ Shifted d s.draw.2.upcoming s'.draw.2.upcoming := by
  have hnext := TokenSource.upcoming_draw_ne_zero h.left
  have hnext' := TokenSource.upcoming_draw_ne_zero h.right
  have hsucc (r : TokenSource) (hr : r.upcoming ≠ TokenSource.limit) :
      (r.upcoming + 1).toNat = r.upcoming.toNat + 1 := by
    have hlt := UInt32.lt_iff_toNat_lt.mp (TokenSource.upcoming_lt_succ hr)
    rw [UInt32.toNat_add, UInt32.toNat_one] at hlt ⊢
    have hsize := r.upcoming.toNat_lt
    omega
  rw [TokenSource.draw_of_ne hne] at hnext ⊢
  rw [TokenSource.draw_of_ne hne'] at hnext' ⊢
  refine ⟨h, hnext, hnext', ?_⟩
  have hd := h.distance
  rw [hsucc s hne, hsucc s' hne']
  omega

end Token

/-! ### Tables -/

/-- Tables of one size whose objects are related place by place. -/
structure Paired {α : Type} [Inhabited α] (R : α → α → Prop) (xs ys : Array α) : Prop where
  size : ys.size = xs.size
  each : ∀ i, R (xs.getD i default) (ys.getD i default)

namespace Paired

variable {α : Type} [Inhabited α] {R : α → α → Prop} {xs ys : Array α}

lemma push (h : Paired R xs ys) {x y : α} (hxy : R x y) : Paired R (xs.push x) (ys.push y) where
  size := by rw [Array.size_push, Array.size_push, h.size]
  each i := by
    rw [getD_push, getD_push, h.size]
    split
    · exact hxy
    · exact h.each i

lemma modify (h : Paired R xs ys) (k : Nat) {f g : α → α}
    (hfg : R (f (xs.getD k default)) (g (ys.getD k default))) :
    Paired R (xs.modify k f) (ys.modify k g) where
  size := by rw [Array.size_modify, Array.size_modify, h.size]
  each i := by
    rw [getD_modify, getD_modify, h.size]
    split
    · next hk =>
      obtain ⟨rfl, -⟩ := hk
      exact hfg
    · exact h.each i

lemma set (h : Paired R xs ys) (k : Nat) {x y : α} (hxy : R x y) :
    Paired R (xs.setIfInBounds k x) (ys.setIfInBounds k y) where
  size := by rw [Array.size_setIfInBounds, Array.size_setIfInBounds, h.size]
  each i := by
    rw [getD_setIfInBounds, getD_setIfInBounds, h.size]
    split
    · exact hxy
    · exact h.each i

/-- A reading that related objects share is the same of the whole tables. -/
lemma map_eq {β : Type} (h : Paired R xs ys) {f : α → β} (hf : ∀ x y, R x y → f y = f x) :
    ys.map f = xs.map f := by
  refine Array.ext (by simp [h.size]) fun i hi hi' => ?_
  have heach := hf _ _ (h.each i)
  simp only [Array.size_map] at hi hi'
  simpa [Array.getD_eq_getD_getElem?, hi, hi'] using heach

end Paired

/-! ### Objects -/

structure Namespace.Twin (d : ℤ) (ns ns' : Namespace) : Prop where
  slots : ns'.slots = ns.slots
  index : ns'.index = ns.index
  version : Token.Apart d ns.keysVersion ns'.keysVersion

structure Shape.Twin (d : ℤ) (s s' : Shape) : Prop where
  keys : s'.keys = s.keys
  transitions : s'.transitions = s.transitions
  id : Token.Apart d s.id s'.id

lemma Shape.Twin.lead {d : ℤ} {s s' : Shape} (h : s.Twin d s') (key : String) (next : Nat) :
    Shape.Twin d { s with transitions := (key, next) :: s.transitions }
      { s' with transitions := (key, next) :: s'.transitions } where
  keys := h.keys
  transitions := congrArg (List.cons (key, next)) h.transitions
  id := h.id

structure Function.Twin (d : ℤ) (f f' : Function) : Prop where
  unit : f'.unit = f.unit
  globals : f'.globals = f.globals
  defaults : f'.defaults = f.defaults
  version : Token.Apart d f.version f'.version

structure Builtin.Twin (d : ℤ) (b b' : Builtin) : Prop where
  arity : b'.arity = b.arity
  procedure : b'.procedure = b.procedure
  id : Token.Apart d b.id b'.id

namespace Namespace.Twin

variable {d : ℤ} {ns ns' : Namespace}

lemma indexOf?_eq (h : ns.Twin d ns') (key : String) : ns'.indexOf? key = ns.indexOf? key := by
  rw [indexOf?, h.index, indexOf?]

lemma valueAt?_eq (h : ns.Twin d ns') (i : Nat) : ns'.valueAt? i = ns.valueAt? i := by
  rw [valueAt?, h.slots, valueAt?]

lemma get?_eq (h : ns.Twin d ns') (key : String) : ns'.get? key = ns.get? key := by
  have hvalue : ns'.valueAt? = ns.valueAt? := funext h.valueAt?_eq
  rw [get?, h.indexOf?_eq, hvalue, get?]

lemma rebind (h : ns.Twin d ns') (i : Nat) (value : Value) :
    (ns.rebind i value).Twin d (ns'.rebind i value) where
  slots := by rw [Namespace.rebind, h.slots, Namespace.rebind]
  index := h.index
  version := h.version

variable {t t' : Token}

lemma append (h : ns.Twin d ns') (ht : Token.Apart d t t') (key : String) (value : Value) :
    (ns.append key value t).Twin d (ns'.append key value t') where
  slots := by rw [Namespace.append, h.slots, Namespace.append]
  index := by
    show (key, ns'.slots.size) :: ns'.index = (key, ns.slots.size) :: ns.index
    rw [h.slots, h.index]
  version := ht

lemma vacate (h : ns.Twin d ns') (ht : Token.Apart d t t') (key : String) (i : Nat) :
    (ns.vacate key i t).Twin d (ns'.vacate key i t') where
  slots := by rw [Namespace.vacate, h.slots, Namespace.vacate]
  index := by rw [Namespace.vacate, h.index, Namespace.vacate]
  version := ht

end Namespace.Twin

/-! ### Heaps -/

/-- The same objects, and tokens that are apart by the distances `d` of their kinds. -/
structure Heap.Twin (d : TokenKind → ℤ) (h h' : Heap) : Prop where
  tokens : ∀ k, Token.Shifted (d k) (h.tokens.source k).upcoming (h'.tokens.source k).upcoming
  namespaces : Paired (Namespace.Twin (d .keys)) h.namespaces h'.namespaces
  shapes : Paired (Shape.Twin (d .shapes)) h.shapes h'.shapes
  functions : Paired (Function.Twin (d .functions)) h.functions h'.functions
  builtins : Paired (Builtin.Twin (d .builtins)) h.builtins h'.builtins
  classes : h'.classes = h.classes
  instances : h'.instances = h.instances
  sources : h'.sources = h.sources
  units : h'.units = h.units

namespace Heap

variable {d : TokenKind → ℤ} {h h' : Heap}

/-- Heaps without objects whose sources have not started at "no version". -/
lemma twin_empty {t t' : Tokens}
    (ht : ∀ k, Token.Shifted (d k) (t.source k).upcoming (t'.source k).upcoming) :
    Twin d { tokens := t } { tokens := t' } where
  tokens := ht
  namespaces := ⟨rfl, fun _ => ⟨rfl, rfl, Token.apart_zero _⟩⟩
  shapes := ⟨rfl, fun _ => ⟨rfl, rfl, Token.apart_zero _⟩⟩
  functions := ⟨rfl, fun _ => ⟨rfl, rfl, rfl, Token.apart_zero _⟩⟩
  builtins := ⟨rfl, fun _ => ⟨rfl, rfl, Token.apart_zero _⟩⟩
  classes := rfl
  instances := rfl
  sources := rfl
  units := rfl

namespace Twin

lemma unitAt (ht : h.Twin d h') (u : Nat) : h'.unitAt u = h.unitAt u := by
  rw [Heap.unitAt, ht.units, Heap.unitAt]

lemma classAt (ht : h.Twin d h') (c : Ref .cls) : h'.classAt c = h.classAt c := by
  rw [Heap.classAt, ht.classes, Heap.classAt]

lemma instanceAt (ht : h.Twin d h') (o : Ref .inst) : h'.instanceAt o = h.instanceAt o := by
  rw [Heap.instanceAt, ht.instances, Heap.instanceAt]

lemma namespaceAt (ht : h.Twin d h') (n : Nat) :
    (h.namespaceAt n).Twin (d .keys) (h'.namespaceAt n) :=
  ht.namespaces.each n

lemma functionAt (ht : h.Twin d h') (f : Ref .function) :
    (h.functionAt f).Twin (d .functions) (h'.functionAt f) :=
  ht.functions.each f.id

lemma builtinAt (ht : h.Twin d h') (b : Ref .builtin) :
    (h.builtinAt b).Twin (d .builtins) (h'.builtinAt b) :=
  ht.builtins.each b.id

lemma attributesOf (ht : h.Twin d h') (c : Ref .cls) :
    (h.attributesOf c).Twin (d .keys) (h'.attributesOf c) := by
  rw [Heap.attributesOf, Heap.attributesOf, ht.classAt]
  exact ht.namespaceAt _

lemma shapeOf (ht : h.Twin d h') (o : Ref .inst) :
    (h.shapeOf o).Twin (d .shapes) (h'.shapeOf o) := by
  rw [Heap.shapeOf, Heap.shapeOf, ht.instanceAt]
  exact ht.shapes.each _

lemma fieldIndex (ht : h.Twin d h') (o : Ref .inst) (key : String) :
    (h'.shapeOf o).indexOf? key = (h.shapeOf o).indexOf? key := by
  rw [Shape.indexOf?, (ht.shapeOf o).keys, Shape.indexOf?]

/-! ### Namespaces and shapes -/

/-- Both heaps draw a token of one kind. -/
lemma draw (ht : h.Twin d h') (k : TokenKind) (hl : (h.tokens.spend k).Lasting)
    (hl' : (h'.tokens.spend k).Lasting) :
    Token.Shifted (d k) (h.tokens.source k).draw.1 (h'.tokens.source k).draw.1 ∧
      Twin d { h with tokens := h.tokens.spend k } { h' with tokens := h'.tokens.spend k } := by
  obtain ⟨htoken, hsource⟩ := (ht.tokens k).draw (hl.of_spend k) (hl'.of_spend k)
  refine ⟨htoken, { ht with tokens := fun k' => ?_ }⟩
  rw [Tokens.source_spend, Tokens.source_spend]
  split
  · next hk =>
    subst hk
    exact hsource
  · exact ht.tokens k'

lemma freshKeys (ht : h.Twin d h') (hl : h.freshKeys.2.tokens.Lasting)
    (hl' : h'.freshKeys.2.tokens.Lasting) :
    Token.Shifted (d .keys) h.freshKeys.1 h'.freshKeys.1 ∧ h.freshKeys.2.Twin d h'.freshKeys.2 :=
  ht.draw .keys hl hl'

lemma newNamespace (ht : h.Twin d h') (hl : h.newNamespace.2.tokens.Lasting)
    (hl' : h'.newNamespace.2.tokens.Lasting) :
    h'.newNamespace.1 = h.newNamespace.1 ∧ h.newNamespace.2.Twin d h'.newNamespace.2 := by
  obtain ⟨htoken, htwin⟩ := ht.freshKeys hl hl'
  exact ⟨ht.namespaces.size,
    { htwin with namespaces := htwin.namespaces.push ⟨rfl, rfl, .inr htoken⟩ }⟩

lemma assign (ht : h.Twin d h') (n : Nat) (key : String) (value : Value)
    (hl : (h.assign n key value).tokens.Lasting) (hl' : (h'.assign n key value).tokens.Lasting) :
    (h.assign n key value).Twin d (h'.assign n key value) := by
  have hn := ht.namespaceAt n
  unfold Heap.assign at hl hl' ⊢
  rw [hn.indexOf?_eq] at hl' ⊢
  rcases hi : (h.namespaceAt n).indexOf? key with _ | i
  all_goals rw [hi] at hl hl'
  · obtain ⟨htoken, htwin⟩ := ht.freshKeys hl hl'
    have hnew := htwin.namespaces.modify n (f := (·.append key value h.freshKeys.1))
      (g := (·.append key value h'.freshKeys.1)) (hn.append (.inr htoken) key value)
    exact { htwin with namespaces := hnew }
  · have hnew := ht.namespaces.modify n (f := (·.rebind i value)) (g := (·.rebind i value))
      (hn.rebind i value)
    exact { ht with namespaces := hnew }

lemma remove (ht : h.Twin d h') (n : Nat) (key : String)
    (hl : (h.remove n key).2.tokens.Lasting) (hl' : (h'.remove n key).2.tokens.Lasting) :
    (h'.remove n key).1 = (h.remove n key).1 ∧ (h.remove n key).2.Twin d (h'.remove n key).2 := by
  have hn := ht.namespaceAt n
  unfold Heap.remove at hl hl' ⊢
  rw [hn.indexOf?_eq] at hl' ⊢
  rcases hi : (h.namespaceAt n).indexOf? key with _ | i
  all_goals rw [hi] at hl hl'
  · exact ⟨rfl, ht⟩
  · obtain ⟨htoken, htwin⟩ := ht.freshKeys hl hl'
    have hnew := htwin.namespaces.modify n (f := (·.vacate key i h.freshKeys.1))
      (g := (·.vacate key i h'.freshKeys.1)) (hn.vacate (.inr htoken) key i)
    exact ⟨hn.valueAt?_eq i, { htwin with namespaces := hnew }⟩

lemma newShape (ht : h.Twin d h') (keys : Array String) (hl : (h.newShape keys).2.tokens.Lasting)
    (hl' : (h'.newShape keys).2.tokens.Lasting) :
    (h'.newShape keys).1 = (h.newShape keys).1 ∧
      (h.newShape keys).2.Twin d (h'.newShape keys).2 := by
  obtain ⟨htoken, htwin⟩ := ht.draw .shapes hl hl'
  exact ⟨ht.shapes.size, { htwin with shapes := htwin.shapes.push ⟨rfl, rfl, .inr htoken⟩ }⟩

lemma extendShape (ht : h.Twin d h') (s : Nat) (key : String)
    (hl : (h.extendShape s key).2.tokens.Lasting) (hl' : (h'.extendShape s key).2.tokens.Lasting) :
    (h'.extendShape s key).1 = (h.extendShape s key).1 ∧
      (h.extendShape s key).2.Twin d (h'.extendShape s key).2 := by
  have hs : (h.shapeAt s).Twin (d .shapes) (h'.shapeAt s) := ht.shapes.each s
  have hnext : (h'.shapeAt s).next? key = (h.shapeAt s).next? key := by
    rw [Shape.next?, hs.transitions, Shape.next?]
  unfold Heap.extendShape at hl hl' ⊢
  rw [hnext, ht.shapes.size, hs.keys] at hl' ⊢
  rcases hn : (h.shapeAt s).next? key with _ | next
  · rw [hn] at hl hl'
    by_cases hlt : s < h.shapes.size
    · simp only [if_pos hlt] at hl hl' ⊢
      obtain ⟨hplace, htwin⟩ := ht.newShape ((h.shapeAt s).keys.push key) hl hl'
      rw [hplace]
      have hnew := htwin.shapes.modify s
        (f := fun x => { x with transitions := (key, h.shapes.size) :: x.transitions })
        (g := fun x => { x with transitions := (key, h.shapes.size) :: x.transitions })
        ((htwin.shapes.each s).lead key h.shapes.size)
      exact ⟨rfl, { htwin with shapes := hnew }⟩
    · simp only [if_neg hlt]
      exact ⟨trivial, ht⟩
  · exact ⟨rfl, ht⟩

lemma setField (ht : h.Twin d h') (o : Ref .inst) (key : String) (value : Value)
    (hl : (h.setField o key value).tokens.Lasting)
    (hl' : (h'.setField o key value).tokens.Lasting) :
    (h.setField o key value).Twin d (h'.setField o key value) := by
  unfold Heap.setField at hl hl' ⊢
  rw [ht.fieldIndex, ht.instanceAt] at hl' ⊢
  rcases hi : (h.shapeOf o).indexOf? key with _ | i
  · rw [hi] at hl hl'
    obtain ⟨hplace, htwin⟩ := ht.extendShape (h.instanceAt o).shape key hl hl'
    refine { htwin with instances := ?_ }
    dsimp only
    rw [hplace, htwin.instances]
  · refine { ht with instances := ?_ }
    dsimp only
    rw [ht.instances]

/-! ### Objects that are added -/

lemma newClass (ht : h.Twin d h') (name : String) (hl : (h.newClass name).2.tokens.Lasting)
    (hl' : (h'.newClass name).2.tokens.Lasting) :
    (h'.newClass name).1 = (h.newClass name).1 ∧
      (h.newClass name).2.Twin d (h'.newClass name).2 := by
  have hfirst : h.newNamespace.2.tokens.Lasting := Tokens.Lasting.of_spend (k := .shapes) hl
  have hfirst' : h'.newNamespace.2.tokens.Lasting := Tokens.Lasting.of_spend (k := .shapes) hl'
  obtain ⟨hnames, htwin⟩ := ht.newNamespace hfirst hfirst'
  obtain ⟨hroot, hsecond⟩ := htwin.newShape #[] hl hl'
  refine ⟨?_, { hsecond with classes := ?_ }⟩
  · show (⟨h'.classes.size, name⟩ : Ref .cls) = ⟨h.classes.size, name⟩
    rw [ht.classes]
  · show h'.classes.push ⟨h'.newNamespace.1, (h'.newNamespace.2.newShape #[]).1⟩ =
      h.classes.push ⟨h.newNamespace.1, (h.newNamespace.2.newShape #[]).1⟩
    rw [ht.classes, hnames, hroot]

lemma instantiate (ht : h.Twin d h') (c : Ref .cls) :
    (h'.instantiate c).1 = (h.instantiate c).1 ∧
      (h.instantiate c).2.Twin d (h'.instantiate c).2 := by
  unfold Heap.instantiate
  rw [ht.classAt]
  refine ⟨?_, { ht with instances := ?_ }⟩
  · dsimp only
    rw [ht.instances]
  · dsimp only
    rw [ht.instances]

lemma newFunction (ht : h.Twin d h') (unit : Nat) (globals : Ref .mod) (defaults : List Value)
    (hl : (h.newFunction unit globals defaults).2.tokens.Lasting)
    (hl' : (h'.newFunction unit globals defaults).2.tokens.Lasting) :
    (h'.newFunction unit globals defaults).1 = (h.newFunction unit globals defaults).1 ∧
      (h.newFunction unit globals defaults).2.Twin d (h'.newFunction unit globals defaults).2 := by
  obtain ⟨htoken, htwin⟩ := ht.draw .functions hl hl'
  refine ⟨?_, { htwin with functions := htwin.functions.push ⟨rfl, rfl, rfl, .inr htoken⟩ }⟩
  show (⟨h'.functions.size, (h'.unitAt unit).name⟩ : Ref .function) = ⟨_, (h.unitAt unit).name⟩
  rw [ht.functions.size, ht.unitAt]

lemma newBuiltin (ht : h.Twin d h') (name : String) (arity : Option UInt8) (p : Procedure)
    (hl : (h.newBuiltin name arity p).2.tokens.Lasting)
    (hl' : (h'.newBuiltin name arity p).2.tokens.Lasting) :
    (h'.newBuiltin name arity p).1 = (h.newBuiltin name arity p).1 ∧
      (h.newBuiltin name arity p).2.Twin d (h'.newBuiltin name arity p).2 := by
  obtain ⟨htoken, htwin⟩ := ht.draw .builtins hl hl'
  refine ⟨?_, { htwin with builtins := htwin.builtins.push ⟨rfl, rfl, .inr htoken⟩ }⟩
  show (⟨h'.builtins.size, name⟩ : Ref .builtin) = ⟨h.builtins.size, name⟩
  rw [ht.builtins.size]

lemma newSource (ht : h.Twin d h') (s : Random.Source) :
    (h'.newSource s).1 = (h.newSource s).1 ∧ (h.newSource s).2.Twin d (h'.newSource s).2 := by
  unfold Heap.newSource
  refine ⟨congrArg Array.size ht.sources, { ht with sources := ?_ }⟩
  dsimp only
  rw [ht.sources]

lemma newUnit (ht : h.Twin d h') (u : CodeUnit) :
    (h'.newUnit u).1 = (h.newUnit u).1 ∧ (h.newUnit u).2.Twin d (h'.newUnit u).2 := by
  unfold Heap.newUnit
  refine ⟨congrArg Array.size ht.units, { ht with units := ?_ }⟩
  dsimp only
  rw [ht.units]

/-! ### What programs do -/

lemma perform (ht : h.Twin d h') (p : Procedure) (args : List Value) :
    (h'.perform p args).1 = (h.perform p args).1 ∧
      (h.perform p args).2.Twin d (h'.perform p args).2 := by
  cases p with
  | compute f => exact ⟨rfl, ht⟩
  | draw source =>
    dsimp only [Heap.perform]
    rw [ht.sources]
    exact ⟨rfl, { ht with sources := rfl }⟩

lemma invoke (ht : h.Twin d h') (b : Ref .builtin) (args : List Value) :
    (h'.invoke b args).1 = (h.invoke b args).1 ∧
      (h.invoke b args).2.Twin d (h'.invoke b args).2 := by
  have hb := ht.builtinAt b
  unfold Heap.invoke
  dsimp only
  rw [hb.arity, hb.procedure]
  split
  · exact ht.perform _ args
  · split
    · exact ht.perform _ args
    · exact ⟨rfl, ht⟩

lemma loadGlobal (ht : h.Twin d h') (globals builtins : Nat) (key : String) :
    Operation.loadGlobal (h'.namespaceAt globals) (h'.namespaceAt builtins) key =
      Operation.loadGlobal (h.namespaceAt globals) (h.namespaceAt builtins) key := by
  rw [Operation.loadGlobal, (ht.namespaceAt globals).get?_eq, (ht.namespaceAt builtins).get?_eq,
    Operation.loadGlobal]

lemma attribute? (ht : h.Twin d h') (receiver : Value) (key : String) :
    Operation.attribute? h' receiver key = Operation.attribute? h receiver key := by
  cases receiver with
  | inst o =>
    have hfield : h'.field? o key = h.field? o key := by
      rw [field?, ht.fieldIndex, ht.instanceAt, field?]
    simp only [Operation.attribute?]
    rw [hfield, ht.instanceAt, (ht.attributesOf _).get?_eq]
  | cls c => exact (ht.attributesOf c).get?_eq key
  | mod m => exact (ht.namespaceAt m.id).get?_eq key
  | _ => rfl

lemma loadAttr (ht : h.Twin d h') (receiver : Value) (key : String) :
    Operation.loadAttr h' receiver key = Operation.loadAttr h receiver key := by
  rw [Operation.loadAttr, ht.attribute?, Operation.loadAttr]

lemma putAttr (ht : h.Twin d h') (receiver : Value) (key : String) (value : Value)
    (hl : (Operation.putAttr h receiver key value).tokens.Lasting)
    (hl' : (Operation.putAttr h' receiver key value).tokens.Lasting) :
    (Operation.putAttr h receiver key value).Twin d (Operation.putAttr h' receiver key value) := by
  cases receiver with
  | inst o => exact ht.setField o key value hl hl'
  | cls c =>
    simp only [Operation.putAttr] at hl hl' ⊢
    rw [ht.classAt] at hl' ⊢
    exact ht.assign _ key value hl hl'
  | mod m => exact ht.assign m.id key value hl hl'
  | _ => exact ht

end Twin

/-- Sources that have handed out no more than lasting ones last. -/
lemma Later.lasting (hlater : Later h h') (hl : h'.tokens.Lasting) : h.tokens.Lasting := by
  intro k
  cases k with
  | keys => exact TokenSource.ne_limit_of_issued hlater.keysIssued (hl .keys)
  | functions => exact TokenSource.ne_limit_of_issued hlater.functionsIssued (hl .functions)
  | builtins => exact TokenSource.ne_limit_of_issued hlater.builtinsIssued (hl .builtins)
  | shapes => exact TokenSource.ne_limit_of_issued hlater.shapesIssued (hl .shapes)

lemma Develops.lasting (hd : h.Develops h') (hw : h.WellFormed) (hl : h'.tokens.Lasting) :
    h.tokens.Lasting :=
  (hd.keeps hw).2.lasting hl

end Heap

namespace Builtins

open Heap

variable {d : TokenKind → ℤ} {h h' : Heap}

lemma register_twin (ht : h.Twin d h') (hw : h.WellFormed) (hw' : h'.WellFormed) (m : Ref .mod)
    (name : String) (arity : Option UInt8) (f : List Value → Except Error Value)
    (hl : (register h m name arity f).tokens.Lasting)
    (hl' : (register h' m name arity f).tokens.Lasting) :
    (register h m name arity f).Twin d (register h' m name arity f) := by
  have hmade := newBuiltin_develops h name arity (.compute f)
  have hmade' := newBuiltin_develops h' name arity (.compute f)
  have hlast := (assign_develops _ m.id name _).lasting (hmade.keeps hw).1 hl
  have hlast' := (assign_develops _ m.id name _).lasting (hmade'.keeps hw').1 hl'
  obtain ⟨hplace, htwin⟩ := ht.newBuiltin name arity (.compute f) hlast hlast'
  unfold register at hl hl' ⊢
  dsimp only at hl hl' ⊢
  rw [hplace] at hl' ⊢
  exact htwin.assign m.id name _ hl hl'

lemma foldl_register_twin (m : Ref .mod)
    (es : List (String × Option UInt8 × (List Value → Except Error Value))) (ht : h.Twin d h')
    (hw : h.WellFormed) (hw' : h'.WellFormed)
    (hl : (es.foldl (fun h e => register h m e.1 e.2.1 e.2.2) h).tokens.Lasting)
    (hl' : (es.foldl (fun h e => register h m e.1 e.2.1 e.2.2) h').tokens.Lasting) :
    (es.foldl (fun h e => register h m e.1 e.2.1 e.2.2) h).Twin d
      (es.foldl (fun h e => register h m e.1 e.2.1 e.2.2) h') := by
  induction es generalizing h h' with
  | nil => exact ht
  | cons e es ih =>
    have hfirst := ((register_develops h m e.1 e.2.1 e.2.2).keeps hw).1
    have hfirst' := ((register_develops h' m e.1 e.2.1 e.2.2).keeps hw').1
    have hlast := (foldl_register_develops m es _).lasting hfirst hl
    have hlast' := (foldl_register_develops m es _).lasting hfirst' hl'
    exact ih (register_twin ht hw hw' m _ _ _ hlast hlast') hfirst hfirst' hl hl'

lemma install_twin (ht : h.Twin d h') (hw : h.WellFormed) (hw' : h'.WellFormed)
    (hl : (install h).2.tokens.Lasting) (hl' : (install h').2.tokens.Lasting) :
    (install h').1 = (install h).1 ∧ (install h).2.Twin d (install h').2 := by
  unfold install at hl hl' ⊢
  generalize table = es at hl hl' ⊢
  have hmade := ((newNamespace_develops h).keeps hw).1
  have hmade' := ((newNamespace_develops h').keeps hw').1
  obtain ⟨hplace, htwin⟩ := ht.newNamespace
    ((foldl_register_develops _ es _).lasting hmade hl)
    ((foldl_register_develops _ es _).lasting hmade' hl')
  simp only [Heap.newModule] at hl hl' ⊢
  rw [hplace] at hl' ⊢
  exact ⟨rfl, foldl_register_twin _ es htwin hmade hmade' hl hl'⟩

end Builtins

/-! ### What twins share -/

/-- The objects of a heap, without their tokens. -/
def Heap.blank (h : Heap) : Heap :=
  { h with
    tokens := {}
    namespaces := h.namespaces.map fun ns => { ns with keysVersion := 0 }
    shapes := h.shapes.map fun s => { s with id := 0 }
    functions := h.functions.map fun f => { f with version := 0 }
    builtins := h.builtins.map fun b => { b with id := 0 } }

/-- Without their tokens, twins are equal. -/
lemma Heap.Twin.blank_eq {d : TokenKind → ℤ} {h h' : Heap} (ht : h.Twin d h') :
    h'.blank = h.blank := by
  have hnames := ht.namespaces.map_eq (f := fun ns => { ns with keysVersion := 0 })
    fun ns ns' hn => by rw [hn.slots, hn.index]
  have hshapes := ht.shapes.map_eq (f := fun s => { s with id := 0 })
    fun s s' hs => by rw [hs.keys, hs.transitions]
  have hfunctions := ht.functions.map_eq (f := fun f => { f with version := 0 })
    fun f f' hf => by rw [hf.unit, hf.globals, hf.defaults]
  have hbuiltins := ht.builtins.map_eq (f := fun b => { b with id := 0 })
    fun b b' hb => by rw [hb.arity, hb.procedure]
  rw [blank, hnames, hshapes, hfunctions, hbuiltins, ht.classes, ht.instances, ht.sources, ht.units,
    blank]

end AdaptiveVM
