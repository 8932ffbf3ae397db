import AdaptiveVM.Proofs.OperandStream
import AdaptiveVM.Proofs.Safety
import AdaptiveVM.Proofs.Sightings

/-!
What a program can get hold of.

An execution begins with a few values, and comes to others only where these lead: to what is bound
in a module or a class, to the fields of an instance, to what a function is made of, and to the
answers of builtins. Whatever it stores it has got hold of before, and an instance that it makes
leads no further than the class. So it never leaves what could be reached when it began, however
often it binds names anew; and the units it enters are among those that can be told then.
-/

namespace AdaptiveVM

/-- The value is itself, and no reference. -/
def Value.isScalar : Value → Bool
  | .none | .bool _ | .int _ | .float _ | .str _ => true
  | _ => false

namespace Heap

/-- Where an object leads. A builtin leads to the operands of the stream it takes them from. -/
inductive Refers (h : Heap) : Value → Value → Prop where
  | binding {m : Ref .mod} {key : String} {v : Value}
      (found : (h.namespaceAt m.id).get? key = some v) : Refers h (.mod m) v
  | member {c : Ref .cls} {key : String} {v : Value}
      (found : (h.attributesOf c).get? key = some v) : Refers h (.cls c) v
  | field {o : Ref .inst} {v : Value} (found : v ∈ (h.instanceAt o).fields) : Refers h (.inst o) v
  | inherited {o : Ref .inst} {key : String} {v : Value}
      (found : (h.attributesOf (h.instanceAt o).cls).get? key = some v) : Refers h (.inst o) v
  | globals (f : Ref .function) : Refers h (.function f) (.mod (h.functionAt f).globals)
  | preset {f : Ref .function} {v : Value} (found : v ∈ (h.functionAt f).defaults) :
      Refers h (.function f) v
  | constant {f : Ref .function} {v : Value}
      (found : v ∈ (h.unitAt (h.functionAt f).unit).constants) : Refers h (.function f) v
  | operand {b : Ref .builtin} {source : Nat}
      (procedure : (h.builtinAt b).procedure = .draw source) (k : Nat) :
      Refers h (.builtin b) ((h.sources.getD source default).nth k)

/-- An instance that is yet to be made. -/
def Unmade (h : Heap) (v : Value) : Prop := ∃ o : Ref .inst, v = .inst o ∧ h.instances.size ≤ o.id

/-- What can be reached from some values. A builtin may be handed instances that are made later, and
may answer with what it was handed, or with something it knows. -/
inductive Reaches (h : Heap) (roots : List Value) : Value → Prop where
  | root {v : Value} (given : v ∈ roots) : Reaches h roots v
  | scalar {v : Value} (plain : v.isScalar = true) : Reaches h roots v
  | follow {v w : Value} (before : Reaches h roots v) (refers : h.Refers v w) : Reaches h roots w
  | answer {b : Ref .builtin} {g : List Value → Except Error Value} {args : List Value} {v : Value}
      (callee : Reaches h roots (.builtin b)) (procedure : (h.builtinAt b).procedure = .compute g)
      (handed : ∀ x ∈ args, ¬ h.Unmade x → Reaches h roots x) (answers : g args = .ok v)
      (known : v ∉ args) : Reaches h roots v

end Heap

namespace Invocation

/-- What an execution begins with. -/
def roots (h : Heap) (builtins : Ref .mod) : Invocation → List Value
  | .run unit globals => .mod builtins :: .mod globals :: (h.unitAt unit).constants.toList
  | .call callee args => .mod builtins :: callee :: args

variable (i : Invocation) (h₀ : Heap) (b : Ref .mod)

/-- The units that an execution can enter: the one that is run, and those of the functions that can
be reached. -/
def CanEnter (u : Nat) : Prop :=
  (∃ globals, i = .run u globals) ∨
    ∃ f : Ref .function, h₀.Reaches (i.roots h₀ b) (.function f) ∧ (h₀.functionAt f).unit = u

/-- What an execution may have got hold of: what it could reach when it began, and the instances
made since. -/
def Held (h : Heap) (v : Value) : Prop :=
  h₀.Reaches (i.roots h₀ b) v ∨ h₀.Unmade v ∧ ¬ h.Unmade v

/-- From what an execution may have got hold of, nothing in the heap leads out. -/
structure Confines (h : Heap) : Prop where
  refers : ∀ v w, i.Held h₀ b h v → h.Refers v w → i.Held h₀ b h w
  functions : h.functions = h₀.functions
  builtins : h.builtins = h₀.builtins
  units : h.units = h₀.units
  grown : h₀.instances.size ≤ h.instances.size

end Invocation

/-! ### Storing -/

namespace Namespace

variable {ns : Namespace} {key key' : String} {value v : Value}

/-- What a name is bound to after another one has been bound anew. -/
lemma get?_rebind {n : Nat} (hv : (ns.rebind n value).get? key = some v) :
    ns.get? key = some v ∨ v = value := by
  obtain ⟨j, hj, hval⟩ := Option.bind_eq_some_iff.mp hv
  obtain ⟨s, hs, hslot⟩ := Option.bind_eq_some_iff.mp hval
  rw [rebind, Array.getElem?_modify] at hs
  split at hs
  · obtain ⟨s', -, rfl⟩ := Option.map_eq_some_iff.mp hs
    exact .inr (Option.some.inj hslot).symm
  · refine .inl (Option.bind_eq_some_iff.mpr ⟨j, hj, ?_⟩)
    exact Option.bind_eq_some_iff.mpr ⟨s, hs, hslot⟩

lemma get?_append {version : Token} (hv : (ns.append key' value version).get? key = some v) :
    ns.get? key = some v ∨ v = value := by
  obtain ⟨j, hj, hval⟩ := Option.bind_eq_some_iff.mp hv
  obtain ⟨s, hs, hslot⟩ := Option.bind_eq_some_iff.mp hval
  rw [append, Array.getElem?_push] at hs
  split at hs
  · cases hs
    exact .inr (Option.some.inj hslot).symm
  · next hne =>
    have hold : ns.indexOf? key = some j := by
      rw [indexOf?, append, List.lookup_cons] at hj
      split at hj
      · exact absurd (Option.some.inj hj).symm hne
      · exact hj
    exact .inl (Option.bind_eq_some_iff.mpr ⟨j, hold, Option.bind_eq_some_iff.mpr ⟨s, hs, hslot⟩⟩)

end Namespace

namespace Heap

/-- Values of a kind have been stored, or operands taken, and nothing else has changed. -/
structure Stores (P : Value → Prop) (h h' : Heap) : Prop where
  bindings : ∀ n key v, (h'.namespaceAt n).get? key = some v →
    (h.namespaceAt n).get? key = some v ∨ P v
  fields : ∀ k, ∀ v ∈ (h'.instances.getD k default).fields,
    v ∈ (h.instances.getD k default).fields ∨ P v
  cls : ∀ k, (h'.instances.getD k default).cls = (h.instances.getD k default).cls
  made : h'.instances.size = h.instances.size
  sources : ∀ s k, ∃ j, (h'.sources.getD s default).nth k = (h.sources.getD s default).nth j
  classes : h'.classes = h.classes
  functions : h'.functions = h.functions
  builtins : h'.builtins = h.builtins
  units : h'.units = h.units

variable {P : Value → Prop} {h h' : Heap} {v w : Value}

lemma Stores.refl (h : Heap) : Stores P h h :=
  ⟨fun _ _ _ => .inl, fun _ _ => .inl, fun _ => rfl, rfl, fun _ k => ⟨k, rfl⟩, rfl, rfl, rfl, rfl⟩

lemma Stores.mono {Q : Value → Prop} (hs : Stores P h h') (hPQ : ∀ v, P v → Q v) :
    Stores Q h h' :=
  { hs with
    bindings := fun n key v hv => (hs.bindings n key v hv).imp_right (hPQ v)
    fields := fun k v hv => (hs.fields k v hv).imp_right (hPQ v) }

lemma Stores.attributesOf (hs : Stores P h h') (c : Ref .cls) (key : String)
    (hv : (h'.attributesOf c).get? key = some v) : (h.attributesOf c).get? key = some v ∨ P v := by
  rw [Heap.attributesOf, classAt, hs.classes] at hv
  exact hs.bindings _ key v hv

/-- An object leads where it led before, or to what has been stored. -/
lemma Stores.refers (hs : Stores P h h') (hr : h'.Refers v w) : h.Refers v w ∨ P w := by
  have hfunction (f : Ref .function) : h'.functionAt f = h.functionAt f := by
    rw [functionAt, hs.functions, functionAt]
  cases hr with
  | binding found => exact (hs.bindings _ _ _ found).imp_left .binding
  | member found => exact (hs.attributesOf _ _ found).imp_left .member
  | field found => exact (hs.fields _ _ found).imp_left .field
  | @inherited o key _ found =>
    have hcls : (h'.instanceAt o).cls = (h.instanceAt o).cls := hs.cls o.id
    rw [hcls] at found
    exact (hs.attributesOf _ _ found).imp_left .inherited
  | globals f =>
    rw [hfunction]
    exact .inl (.globals f)
  | preset found =>
    rw [hfunction] at found
    exact .inl (.preset found)
  | constant found =>
    rw [hfunction, unitAt, hs.units] at found
    exact .inl (.constant found)
  | @operand r source procedure k =>
    rw [builtinAt, hs.builtins] at procedure
    obtain ⟨j, hj⟩ := hs.sources source k
    rw [hj]
    exact .inl (.operand procedure j)

lemma assign_stores (h : Heap) (n : Nat) (key : String) (value : Value) :
    Stores (· = value) h (h.assign n key value) := by
  have hmodify (t : Tokens) (f : Namespace → Namespace)
      (hf : ∀ ns key v, (f ns).get? key = some v → ns.get? key = some v ∨ v = value) :
      Stores (· = value) h { h with tokens := t, namespaces := h.namespaces.modify n f } := by
    refine ⟨fun k key v hv => ?_, fun _ _ => .inl, fun _ => rfl, rfl, fun _ k => ⟨k, rfl⟩, rfl, rfl,
      rfl, rfl⟩
    rw [namespaceAt, getD_modify] at hv
    split at hv
    · exact hf _ _ _ hv
    · exact .inl hv
  unfold assign
  split
  · exact hmodify h.tokens _ fun _ _ _ hv => Namespace.get?_rebind hv
  · exact hmodify _ _ fun _ _ _ hv => Namespace.get?_append hv

/-- The way to the next shape changes shapes and their tokens alone. -/
lemma extendShape_with (h : Heap) (s : Nat) (key : String) :
    ∃ tokens shapes, (h.extendShape s key).2 = { h with tokens, shapes } := by
  rcases extendShape_cases h s key with ⟨next, -, he⟩ | ⟨-, he⟩ | ⟨-, he⟩
  · exact ⟨h.tokens, h.shapes, by rw [he]⟩
  · exact ⟨_, _, by rw [he]; rfl⟩
  · exact ⟨h.tokens, h.shapes, by rw [he]⟩

lemma setField_stores (h : Heap) (o : Ref .inst) (key : String) (value : Value) :
    Stores (· = value) h (h.setField o key value) := by
  have hmodify (tokens : Tokens) (shapes : Array Shape) (f : Instance → Instance)
      (hf : ∀ x, (f x).cls = x.cls ∧ ∀ v ∈ (f x).fields, v ∈ x.fields ∨ v = value) :
      Stores (· = value) h
        { h with tokens, shapes, instances := h.instances.modify o.id f } := by
    refine ⟨fun _ _ _ => .inl, fun k v hv => ?_, fun k => ?_, Array.size_modify ..,
      fun _ k => ⟨k, rfl⟩, rfl, rfl, rfl, rfl⟩
    · dsimp only at hv
      rw [getD_modify] at hv
      split at hv
      · exact (hf _).2 v hv
      · exact .inl hv
    · dsimp only
      rw [getD_modify]
      split
      · exact (hf _).1
      · rfl
  unfold setField
  split
  · exact hmodify h.tokens h.shapes _ fun x =>
      ⟨rfl, fun v hv => Array.mem_or_eq_of_mem_setIfInBounds hv⟩
  · obtain ⟨tokens, shapes, he⟩ := h.extendShape_with (h.instanceAt o).shape key
    dsimp only
    rw [he]
    exact hmodify tokens shapes _ fun x => ⟨rfl, fun v hv => Array.mem_push.mp hv⟩

lemma putAttr_stores (h : Heap) (receiver : Value) (key : String) (value : Value) :
    Stores (· = value) h (Operation.putAttr h receiver key value) := by
  cases receiver with
  | inst o => exact setField_stores h o key value
  | cls c => exact assign_stores h _ key value
  | mod m => exact assign_stores h _ key value
  | _ => exact .refl h

/-- Taking an operand stores nothing. -/
lemma draw_stores (h : Heap) (source : Nat) :
    Stores P h { h with
      sources := h.sources.setIfInBounds source (h.sources.getD source default).draw.2 } := by
  refine ⟨fun _ _ _ => .inl, fun _ _ => .inl, fun _ => rfl, rfl, fun s k => ?_, rfl, rfl, rfl, rfl⟩
  dsimp only
  rw [getD_setIfInBounds]
  split
  · next hs =>
    obtain ⟨rfl, -⟩ := hs
    exact ⟨k + 1, Random.Source.nth_draw ..⟩
  · exact ⟨k, rfl⟩

end Heap

/-! ### What an execution holds -/

namespace Invocation

variable {i : Invocation} {h₀ h h' : Heap} {b : Ref .mod} {v : Value}

lemma Held.scalar (hv : v.isScalar = true) : i.Held h₀ b h v := .inl (.scalar hv)

/-- Apart from instances, all that an execution holds could be reached when it began. -/
lemma Held.reaches (hv : i.Held h₀ b h v) (hinst : ∀ o, v ≠ .inst o) :
    h₀.Reaches (i.roots h₀ b) v := by
  rcases hv with hv | ⟨⟨o, ho, -⟩, -⟩
  · exact hv
  · exact absurd ho (hinst o)

lemma Held.mono (hv : i.Held h₀ b h v) (hgrown : h.instances.size ≤ h'.instances.size) :
    i.Held h₀ b h' v := by
  refine hv.imp_right fun ⟨hnew, hmade⟩ => ⟨hnew, ?_⟩
  rintro ⟨o, rfl, ho⟩
  exact hmade ⟨o, rfl, hgrown.trans ho⟩

lemma held_roots (hv : v ∈ i.roots h₀ b) : i.Held h₀ b h v := .inl (.root hv)

lemma held_builtins : i.Held h₀ b h (.mod b) := by
  refine held_roots ?_
  cases i <;> exact List.mem_cons_self

/-- The constants of a unit that can be entered. -/
lemma CanEnter.constant {u : Nat} (hu : i.CanEnter h₀ b u) (hv : v ∈ (h₀.unitAt u).constants) :
    i.Held h₀ b h v := by
  rcases hu with ⟨globals, rfl⟩ | ⟨f, hf, rfl⟩
  · exact held_roots (List.mem_cons_of_mem _ (List.mem_cons_of_mem _ (Array.mem_toList_iff.mpr hv)))
  · exact .inl (hf.follow (.constant hv))

namespace Confines

/-- An execution begins with what it can reach. -/
lemma refl (i : Invocation) (h₀ : Heap) (b : Ref .mod) : i.Confines h₀ b h₀ where
  refers v w hv hr := by
    rcases hv with hv | ⟨hnew, hmade⟩
    · exact .inl (hv.follow hr)
    · exact absurd hnew hmade
  functions := rfl
  builtins := rfl
  units := rfl
  grown := le_rfl

/-- What is stored has been held before. -/
lemma stores (hc : i.Confines h₀ b h) (hs : h.Stores (i.Held h₀ b h) h') : i.Confines h₀ b h' where
  refers v w hv hr := by
    have hback : i.Held h₀ b h v := hv.mono hs.made.le
    rcases hs.refers hr with hr | hw
    · exact (hc.refers v w hback hr).mono hs.made.ge
    · exact hw.mono hs.made.ge
  functions := hs.functions.trans hc.functions
  builtins := hs.builtins.trans hc.builtins
  units := hs.units.trans hc.units
  grown := hc.grown.trans hs.made.ge

/-- A new instance leads to what its class has. -/
lemma instantiate (hc : i.Confines h₀ b h) {c : Ref .cls} (hcls : i.Held h₀ b h (.cls c)) :
    i.Confines h₀ b (h.instantiate c).2 := by
  have hsize : (h.instantiate c).2.instances.size = h.instances.size + 1 := Array.size_push ..
  have hgrown : h.instances.size ≤ (h.instantiate c).2.instances.size := by omega
  have hat (o : Ref .inst) : (h.instantiate c).2.instanceAt o =
      if o.id = h.instances.size then { cls := c, shape := (h.classAt c).root }
      else h.instanceAt o := getD_push ..
  refine ⟨fun v w hv hr => ?_, hc.functions, hc.builtins, hc.units, hc.grown.trans hgrown⟩
  -- other objects lead where they led before
  have hother (hback : i.Held h₀ b h v) (hsame : h.Refers v w) :
      i.Held h₀ b (h.instantiate c).2 w := (hc.refers v w hback hsame).mono hgrown
  have hheld (hinst : ∀ o, v ≠ .inst o) : i.Held h₀ b h v := .inl (hv.reaches hinst)
  have hold (o : Ref .inst) (hv : i.Held h₀ b (h.instantiate c).2 (.inst o))
      (hne : o.id ≠ h.instances.size) : i.Held h₀ b h (.inst o) := by
    refine hv.imp_right fun ⟨hnew, hmade⟩ => ⟨hnew, ?_⟩
    rintro ⟨o', ho', hle⟩
    cases ho'
    exact hmade ⟨o, rfl, by omega⟩
  cases hr with
  | binding found => exact hother (hheld nofun) (.binding found)
  | member found => exact hother (hheld nofun) (.member found)
  | @field o _ found =>
    rw [hat] at found
    split at found
    · simp at found
    · next hne => exact hother (hold o hv hne) (.field found)
  | @inherited o key _ found =>
    rw [hat] at found
    split at found
    · exact (hc.refers _ w hcls (.member found)).mono hgrown
    · next hne => exact hother (hold o hv hne) (.inherited found)
  | globals f => exact hother (hheld nofun) (.globals f)
  | preset found => exact hother (hheld nofun) (.preset found)
  | constant found => exact hother (hheld nofun) (.constant found)
  | operand procedure k => exact hother (hheld nofun) (.operand (h := h) procedure k)

lemma held_instantiate (hc : i.Confines h₀ b h) (c : Ref .cls) :
    i.Held h₀ b (h.instantiate c).2 (.inst (h.instantiate c).1) := by
  refine .inr ⟨⟨_, rfl, hc.grown⟩, ?_⟩
  rintro ⟨o, ho, hle⟩
  cases ho
  have hsize : (h.instantiate c).2.instances.size = h.instances.size + 1 := Array.size_push ..
  exact Nat.not_succ_le_self _ (hsize ▸ hle)

/-- What a builtin answers. -/
lemma perform (hc : i.Confines h₀ b h) {r : Ref .builtin} (hr : i.Held h₀ b h (.builtin r))
    {args : List Value} (hargs : ∀ x ∈ args, i.Held h₀ b h x) :
    let out := h.perform (h.builtinAt r).procedure args
    i.Confines h₀ b out.2 ∧ out.2.instances.size = h.instances.size ∧
      ∀ v, out.1 = .ok v → i.Held h₀ b out.2 v := by
  rcases hp : (h.builtinAt r).procedure with g | source
  · refine ⟨hc, rfl, fun v hv => ?_⟩
    by_cases hknown : v ∈ args
    · exact hargs v hknown
    · rw [Heap.builtinAt, hc.builtins] at hp
      refine .inl (.answer (hr.reaches fun o ho => by cases ho) hp (fun x hx hmade => ?_) hv hknown)
      exact (hargs x hx).resolve_right fun hnew => hmade hnew.1
  · have hstores : h.Stores (i.Held h₀ b h) (h.perform (.draw source) args).2 :=
      h.draw_stores source
    refine ⟨hc.stores hstores, rfl, fun v hv => ?_⟩
    cases hv
    exact (hc.refers _ _ hr (.operand hp 0)).mono hstores.made.ge

lemma invoke (hc : i.Confines h₀ b h) {r : Ref .builtin} (hr : i.Held h₀ b h (.builtin r))
    {args : List Value} (hargs : ∀ x ∈ args, i.Held h₀ b h x) :
    let out := h.invoke r args
    i.Confines h₀ b out.2 ∧ out.2.instances.size = h.instances.size ∧
      ∀ v, out.1 = .ok v → i.Held h₀ b out.2 v := by
  unfold Heap.invoke
  dsimp only
  split
  · exact hc.perform hr hargs
  · split
    · exact hc.perform hr hargs
    · exact ⟨hc, rfl, fun v hv => by cases hv⟩

end Confines

end Invocation

namespace Operation

variable {l r v : Value}

/-! Arithmetic and comparison give no references. -/

@[grind →]
lemma isScalar_add (hv : add l r = .ok v) : v.isScalar = true := by
  unfold add addInts at hv
  split at hv
  · split at hv <;> cases hv
    rfl
  all_goals cases hv
  all_goals rfl

@[grind →]
lemma isScalar_sub (hv : sub l r = .ok v) : v.isScalar = true := by
  unfold sub at hv
  split at hv
  · split at hv <;> cases hv
    rfl
  all_goals cases hv
  all_goals rfl

@[grind →]
lemma isScalar_lessThan (hv : lessThan l r = .ok v) : v.isScalar = true := by
  unfold lessThan at hv
  rcases hl : less l r with e | answer <;> rw [hl] at hv <;> cases hv
  rfl

end Operation

/-! ### Frames -/

/-- The values an effect hands on. -/
def Effect.values : Effect → List Value
  | .next _ | .jump _ _ => []
  | .assign _ _ value | .store _ _ _ value | .leave value => [value]
  | .call _ callee args => callee :: args

namespace Frame

/-- What an instruction comes to that it does not take from the stack. -/
inductive Yields (f : Frame) (h : Heap) (builtins : Ref .mod) (u : CodeUnit) : Value → Prop where
  | constant {v : Value} (found : v ∈ u.constants) : Yields f h builtins u v
  | slot {v : Value} (found : some v ∈ f.locals) : Yields f h builtins u v
  | global {key : String} {v : Value}
      (found : Operation.loadGlobal (h.namespaceAt f.globals.id) (h.namespaceAt builtins.id) key =
        .ok v) : Yields f h builtins u v
  | member {receiver : Value} {key : String} {v : Value} (taken : receiver ∈ f.stack)
      (found : Operation.loadAttr h receiver key = .ok v) : Yields f h builtins u v
  | computed {v : Value} (plain : v.isScalar = true) : Yields f h builtins u v

section Effect

variable {f f' : Frame} {h : Heap} {builtins : Ref .mod} {u : CodeUnit} {op : Opcode} {arg : UInt8}
  {e : Effect}

lemma mem_of_popMany? {count : Nat} {args below : List Value}
    (hp : f.popMany? count = some (args, below)) :
    (∀ v ∈ args, v ∈ f.stack) ∧ ∀ v ∈ below, v ∈ f.stack := by
  unfold popMany? at hp
  split at hp
  · cases hp
  · cases hp
    exact ⟨fun v hv => List.mem_of_mem_take (List.mem_reverse.mp hv),
      fun v hv => List.mem_of_mem_drop hv⟩

/-- What an instruction hands on it takes from the stack. -/
lemma effect_values (he : f.effect h builtins u op arg = .ok e) : ∀ v ∈ e.values, v ∈ f.stack := by
  cases op with
  | call =>
    simp only [effect] at he
    split at he
    · next hp =>
      cases he
      obtain ⟨hargs, hbelow⟩ := mem_of_popMany? hp
      exact List.forall_mem_cons.mpr ⟨hbelow _ List.mem_cons_self, hargs⟩
    · cases he
  | _ =>
    simp only [effect] at he
    repeat' split at he
    all_goals cases he
    all_goals simp [Effect.values, *]

/-- What an instruction leaves in the locals was there, or on the stack. -/
lemma effect_locals (he : f.effect h builtins u op arg = .ok e) (hf : e.frame? = some f') :
    f'.globals = f.globals ∧ ∀ v, some v ∈ f'.locals → some v ∈ f.locals ∨ v ∈ f.stack := by
  cases op with
  | storeFast =>
    simp only [effect] at he
    repeat' split at he
    all_goals cases he
    next x rest hs _ =>
      cases hf
      refine ⟨rfl, fun v hv => ?_⟩
      rcases Array.mem_or_eq_of_mem_setIfInBounds hv with hv | hv
      · exact .inl hv
      · cases hv
        rw [hs]
        exact .inr List.mem_cons_self
  | _ =>
    simp only [effect] at he
    repeat' split at he
    all_goals cases he
    all_goals cases hf
    all_goals exact ⟨rfl, fun v hv => .inl hv⟩

/-- What an instruction leaves on the stack was there, or is what it comes to. -/
lemma effect_stack (he : f.effect h builtins u op arg = .ok e) (hf : e.frame? = some f') :
    ∀ v ∈ f'.stack, v ∈ f.stack ∨ f.Yields h builtins u v := by
  -- one value is pushed on what is left
  have hpush {x : Value} {rest : List Value} (hx : f.Yields h builtins u x)
      (hrest : rest ⊆ f.stack) : ∀ v ∈ x :: rest, v ∈ f.stack ∨ f.Yields h builtins u v :=
    List.forall_mem_cons.mpr ⟨.inr hx, fun v hv => .inl (hrest hv)⟩
  cases op with
  | loadConst =>
    simp only [effect] at he
    split at he <;> cases he
    next found =>
      cases hf
      exact hpush (.constant (Array.mem_of_getElem? found)) (List.Subset.refl _)
  | loadFast =>
    simp only [effect] at he
    split at he <;> cases he
    next found =>
      cases hf
      exact hpush (.slot (Array.mem_of_getElem? found)) (List.Subset.refl _)
  | loadGlobal =>
    simp only [effect] at he
    repeat' split at he
    all_goals cases he
    next found =>
      cases hf
      exact hpush (.global found) (List.Subset.refl _)
  | loadAttr =>
    simp only [effect] at he
    repeat' split at he
    all_goals cases he
    next hs _ _ found =>
      cases hf
      exact hpush (.member (by simp [hs]) found) (by simp [hs])
  | binaryAdd | binarySub | compareLt =>
    simp only [effect] at he
    repeat' split at he
    all_goals cases he
    next hs _ _ found =>
      cases hf
      exact hpush (.computed (by grind)) (by simp [hs])
  | call =>
    simp only [effect] at he
    repeat' split at he
    all_goals cases he
    next hp =>
      cases hf
      exact fun v hv => .inl ((mem_of_popMany? hp).2 v (List.mem_cons_of_mem _ hv))
  | _ =>
    simp only [effect] at he
    repeat' split at he
    all_goals cases he
    all_goals cases hf
    all_goals
      intro v hv
      simp_all

end Effect

end Frame

/-- A frame executes a unit that can be entered, on values that are held. -/
structure Frame.Confined (i : Invocation) (h₀ : Heap) (b : Ref .mod) (h : Heap) (f : Frame) :
    Prop where
  unit : i.CanEnter h₀ b f.unit
  globals : i.Held h₀ b h (.mod f.globals)
  locals : ∀ v, some v ∈ f.locals → i.Held h₀ b h v
  stack : ∀ v ∈ f.stack, i.Held h₀ b h v

/-- The frame goes on confined, and what is handed on is held. -/
structure Effect.Confined (i : Invocation) (h₀ : Heap) (b : Ref .mod) (h : Heap) (e : Effect) :
    Prop where
  frame : ∀ f, e.frame? = some f → f.Confined i h₀ b h
  values : ∀ v ∈ e.values, i.Held h₀ b h v

namespace Frame

variable {i : Invocation} {h₀ h h' : Heap} {b : Ref .mod} {f : Frame} {v : Value}

namespace Confined

lemma mono (hf : f.Confined i h₀ b h) (hgrown : h.instances.size ≤ h'.instances.size) :
    f.Confined i h₀ b h' where
  unit := hf.unit
  globals := hf.globals.mono hgrown
  locals v hv := (hf.locals v hv).mono hgrown
  stack v hv := (hf.stack v hv).mono hgrown

lemma push (hf : f.Confined i h₀ b h) (hv : i.Held h₀ b h v) : (f.push v).Confined i h₀ b h :=
  ⟨hf.unit, hf.globals, hf.locals, List.forall_mem_cons.mpr ⟨hv, hf.stack⟩⟩

/-- It does not matter where the frame stands, and in which stream. -/
lemma at_position (hf : f.Confined i h₀ b h) (position : Nat) (quick : Bool) :
    { f with position, quick }.Confined i h₀ b h := ⟨hf.unit, hf.globals, hf.locals, hf.stack⟩

end Confined

/-- A global that is found is held. -/
lemma held_of_loadGlobal (hh : i.Confines h₀ b h) (hf : f.Confined i h₀ b h) {key : String}
    (hv : Operation.loadGlobal (h.namespaceAt f.globals.id) (h.namespaceAt b.id) key = .ok v) :
    i.Held h₀ b h v := by
  unfold Operation.loadGlobal at hv
  split at hv
  · next found =>
    cases hv
    exact hh.refers _ _ hf.globals (.binding found)
  · split at hv
    · next found =>
      cases hv
      exact hh.refers _ _ Invocation.held_builtins (.binding found)
    · cases hv

/-- An attribute that is found is held. -/
lemma held_of_loadAttr (hh : i.Confines h₀ b h) {receiver : Value}
    (hr : i.Held h₀ b h receiver) {key : String} (hv : Operation.loadAttr h receiver key = .ok v) :
    i.Held h₀ b h v := by
  have hv' : Operation.attribute? h receiver key = some v := by
    unfold Operation.loadAttr at hv
    split at hv
    · next found =>
      cases hv
      exact found
    · cases hv
  unfold Operation.attribute? at hv'
  split at hv'
  · split at hv'
    · next o _ found =>
      cases hv'
      obtain ⟨k, -, hk⟩ := Option.bind_eq_some_iff.mp found
      exact hh.refers _ _ hr (.field (Array.mem_of_getElem? hk))
    · exact hh.refers _ _ hr (.inherited hv')
  · exact hh.refers _ _ hr (.member hv')
  · exact hh.refers _ _ hr (.binding hv')
  · cases hv'

/-- What an instruction comes to is held. -/
lemma Yields.held (hh : i.Confines h₀ b h) (hf : f.Confined i h₀ b h) {u : CodeUnit}
    (hu : ∀ v ∈ u.constants, i.Held h₀ b h v) (hy : f.Yields h b u v) : i.Held h₀ b h v := by
  cases hy with
  | constant found => exact hu v found
  | slot found => exact hf.locals v found
  | global found => exact held_of_loadGlobal hh hf found
  | member taken found => exact held_of_loadAttr hh (hf.stack _ taken) found
  | computed plain => exact .scalar plain

/-- **What an instruction works out is held.** -/
theorem effect_confined (hh : i.Confines h₀ b h) (hf : f.Confined i h₀ b h) {u : CodeUnit}
    (hu : ∀ v ∈ u.constants, i.Held h₀ b h v) {op : Opcode} {arg : UInt8} {e : Effect}
    (he : f.effect h b u op arg = .ok e) : e.Confined i h₀ b h where
  frame f' hf' := by
    obtain ⟨hglobals, hlocals⟩ := effect_locals he hf'
    refine ⟨(effect_frame he hf').1 ▸ hf.unit, hglobals ▸ hf.globals, fun v hv => ?_,
      fun v hv => ?_⟩
    · exact (hlocals v hv).elim (hf.locals v) (hf.stack v)
    · exact (effect_stack he hf' v hv).elim (hf.stack v) fun hy => hy.held hh hf hu
  values v hv := hf.stack v (effect_values he v hv)

end Frame

/-! ### Executions -/

/-- An execution works on what it may have got hold of. -/
structure Invocation.Confined (i : Invocation) (h₀ : Heap) (b : Ref .mod) (h : Heap)
    (frames : List Frame) : Prop where
  heap : i.Confines h₀ b h
  frames : ∀ f ∈ frames, f.Confined i h₀ b h

def Progress.Confined (i : Invocation) (h₀ : Heap) (b : Ref .mod) (p : Progress) : Prop :=
  i.Confined h₀ b p.machine.heap p.machine.frames

/-- The locals of a call are its arguments and defaults. -/
lemma Binding.mem_of_bind {name : String} {argcount nlocals : Nat} {defaults args : List Value}
    {locals : Array (Option Value)} (hb : bind name argcount nlocals defaults args = .ok locals)
    {v : Value} (hv : some v ∈ locals) : v ∈ args ∨ v ∈ defaults := by
  unfold bind at hb
  split at hb
  · cases hb
  · cases hb
    simp only [slots, List.mem_toArray, List.mem_append, List.mem_map, List.mem_replicate,
      Option.some.injEq, exists_eq_right, reduceCtorEq, and_false, or_false] at hv
    rcases List.mem_append.mp (List.mem_of_mem_take hv) with hv | hv
    · exact .inl hv
    · exact .inr (List.mem_of_mem_drop hv)

variable {i : Invocation} {h₀ h h' : Heap} {b : Ref .mod} {a : Array Attachment} {vm : Vm}
  {frames rest : List Frame} {f : Frame} {v : Value}

lemma Machine.fail_confined (hh : i.Confines h₀ b h) (e : Error) :
    (fail ⟨h, a, vm, frames⟩ e).Confined i h₀ b := ⟨hh, fun f hf => by cases hf⟩

namespace Invocation.Confined

lemma cons (hm : i.Confined h₀ b h rest) (hf : f.Confined i h₀ b h) :
    i.Confined h₀ b h (f :: rest) := ⟨hm.heap, List.forall_mem_cons.mpr ⟨hf, hm.frames⟩⟩

lemma head (hm : i.Confined h₀ b h (f :: rest)) : f.Confined i h₀ b h :=
  hm.frames f List.mem_cons_self

lemma tail (hm : i.Confined h₀ b h (f :: rest)) : i.Confined h₀ b h rest :=
  ⟨hm.heap, fun g hg => hm.frames g (List.mem_cons_of_mem f hg)⟩

/-- The heap has changed under the frames. -/
lemma with_heap (hm : i.Confined h₀ b h frames) (hh : i.Confines h₀ b h')
    (hgrown : h.instances.size ≤ h'.instances.size) : i.Confined h₀ b h' frames :=
  ⟨hh, fun f hf => (hm.frames f hf).mono hgrown⟩

/-- A value that is held has been stored. -/
lemma stored (hm : i.Confined h₀ b h frames) (hv : i.Held h₀ b h v) (hs : h.Stores (· = v) h') :
    i.Confined h₀ b h' frames := by
  have hheld : h.Stores (i.Held h₀ b h) h' := hs.mono fun w hw => hw ▸ hv
  exact hm.with_heap (hm.heap.stores hheld) hheld.made.ge

lemma deliver (hm : i.Confined h₀ b h frames) (hv : i.Held h₀ b h v) :
    (Machine.deliver ⟨h, a, vm, frames⟩ v).Confined i h₀ b := by
  cases frames with
  | nil => exact hm
  | cons f rest => exact hm.tail.cons ((hm.head.push hv).at_position _ _)

lemma enter (hm : i.Confined h₀ b h frames) {u : Nat} (hu : i.CanEnter h₀ b u) {globals : Ref .mod}
    (hg : i.Held h₀ b h (.mod globals)) {locals : Array (Option Value)}
    (hl : ∀ v, some v ∈ locals → i.Held h₀ b h v) :
    (Machine.enter ⟨h, a, vm, frames⟩ u globals locals).Confined i h₀ b := by
  unfold Machine.enter
  dsimp only
  split
  · exact Machine.fail_confined hm.heap _
  · split
    · exact hm.cons ⟨hu, hg, hl, fun v hv => by cases hv⟩
    · exact Machine.fail_confined hm.heap _

lemma answer (hm : i.Confined h₀ b h frames) (r : Ref .builtin) {result : Except Error Value}
    (hr : ∀ v, result = .ok v → i.Held h₀ b h v) :
    (Machine.answer ⟨h, a, vm, frames⟩ r result).Confined i h₀ b := by
  cases result with
  | ok v => exact hm.deliver (hr v rfl)
  | error e => exact Machine.fail_confined hm.heap _

/-- Any call. -/
lemma call (hm : i.Confined h₀ b h frames) {callee : Value} {args : List Value}
    (hc : i.Held h₀ b h callee) (hargs : ∀ x ∈ args, i.Held h₀ b h x) :
    (Machine.call ⟨h, a, vm, frames⟩ callee args).Confined i h₀ b := by
  cases callee with
  | function r =>
    dsimp only [Machine.call]
    split
    · next locals hbind =>
      have hunit : (h₀.functionAt r).unit = (h.functionAt r).unit := by
        rw [Heap.functionAt, Heap.functionAt, hm.heap.functions]
      refine hm.enter (.inr ⟨r, hc.reaches nofun, hunit⟩) (hm.heap.refers _ _ hc (.globals r))
        fun v hv => ?_
      rcases Binding.mem_of_bind hbind hv with hv | hv
      · exact hargs v hv
      · exact hm.heap.refers _ _ hc (.preset hv)
    · exact Machine.fail_confined hm.heap _
  | builtin r =>
    obtain ⟨hh, hmade, hanswer⟩ := hm.heap.invoke hc hargs
    exact (hm.with_heap hh hmade.ge).answer r hanswer
  | cls c =>
    dsimp only [Machine.call]
    split
    · have hgrown : h.instances.size ≤ (h.instantiate c).2.instances.size :=
        (Nat.le_succ _).trans (Array.size_push ..).ge
      exact (hm.with_heap (hm.heap.instantiate hc) hgrown).deliver (hm.heap.held_instantiate c)
    · exact Machine.fail_confined hm.heap _
  | _ => exact Machine.fail_confined hm.heap _

lemma jump (hm : i.Confined h₀ b h (f :: rest)) (target : Nat) :
    (Machine.jump h a vm f rest target).Confined i h₀ b := by
  unfold Machine.jump
  split
  · split
    · exact hm.tail.cons (hm.head.at_position ..)
    · exact Machine.fail_confined hm.heap _
  · exact hm.tail.cons (hm.head.at_position ..)

lemma carryOut (hm : i.Confined h₀ b h rest) {e : Effect} (he : e.Confined i h₀ b h) :
    (Machine.carryOut h a vm rest e).Confined i h₀ b := by
  cases e with
  | next f => exact hm.cons ((he.frame f rfl).at_position ..)
  | jump f target => exact (hm.cons (he.frame f rfl)).jump target
  | assign f key value =>
    exact (hm.cons ((he.frame f rfl).at_position ..)).stored (he.values value List.mem_cons_self)
      (h.assign_stores ..)
  | store f receiver key value =>
    exact (hm.cons ((he.frame f rfl).at_position ..)).stored (he.values value List.mem_cons_self)
      (h.putAttr_stores ..)
  | call f callee args =>
    obtain ⟨hcallee, hargs⟩ := List.forall_mem_cons.mp he.values
    exact (hm.cons (he.frame f rfl)).call hcallee hargs
  | leave v => exact hm.deliver (he.values v List.mem_cons_self)

lemma stepPlain (hm : i.Confined h₀ b h (f :: rest)) (hb : vm.builtins = b) (op : Opcode)
    (arg : UInt8) :
    (Machine.stepPlain h a vm f rest (h.unitAt f.unit) op arg).Confined i h₀ b := by
  have hconstants (v : Value) (hv : v ∈ (h.unitAt f.unit).constants) : i.Held h₀ b h v := by
    rw [Heap.unitAt, hm.heap.units] at hv
    exact hm.head.unit.constant hv
  unfold Machine.stepPlain
  rw [hb]
  split
  · next he => exact hm.tail.carryOut (Frame.effect_confined hm.heap hm.head hconstants he)
  · exact Machine.fail_confined hm.heap _

/-- **A step keeps an execution in what it may get hold of**, in every mode and at every stage of a
site. -/
theorem step (hw : World.Sound ⟨h, a⟩) (hm : i.Confined h₀ b h frames) (hb : vm.builtins = b) :
    (Machine.step ⟨h, a, vm, frames⟩).Confined i h₀ b := by
  cases frames with
  | nil => exact hm
  | cons f rest =>
    rcases hi : (h.unitAt f.unit).instr? f.position with _ | instr
    · rw [Machine.step_of_none hi]
      exact hm.tail.deliver (.scalar (v := .none) rfl)
    have hobserve := (vm.observe_keeps (h.unitAt f.unit).name f.position instr).builtins.trans hb
    rcases Machine.step_sees vm rest hw hi with ⟨-, hplain⟩ | ⟨q, s, fam, t, -, -, hsees⟩
    · rw [hplain]
      exact hm.stepPlain hobserve _ _
    · rw [hsees.eq]
      refine hm.stepPlain ?_ _ _
      exact hobserve

end Invocation.Confined

lemma Machine.builtins_step (m : Machine) (hw : World.Sound ⟨m.heap, m.attachments⟩) :
    m.step.machine.vm.builtins = m.vm.builtins := by
  rcases step_cases m hw with ⟨-, hquiet⟩ | ⟨f, q, fam, t, hvisits⟩
  · exact hquiet.vm.builtins
  · exact hvisits.quiet.vm.builtins

/-- An execution begins with what it is given. -/
lemma Invocation.start_confined (i : Invocation) (w : World) (vm : Vm) :
    (i.start w vm).Confined i w.heap vm.builtins := by
  have hidle : i.Confined w.heap vm.builtins w.heap [] :=
    ⟨.refl i w.heap vm.builtins, fun f hf => by cases hf⟩
  cases i with
  | run unit globals =>
    dsimp only [start, Machine.start]
    split
    · exact Machine.fail_confined hidle.heap _
    · refine hidle.enter (.inl ⟨globals, rfl⟩) (held_roots ?_) fun v hv => ?_
      · exact List.mem_cons_of_mem _ List.mem_cons_self
      · simp [Binding.slots] at hv
  | call callee args =>
    refine hidle.call (held_roots ?_) fun x hx => held_roots ?_
    · exact List.mem_cons_of_mem _ List.mem_cons_self
    · exact List.mem_cons_of_mem _ (List.mem_cons_of_mem _ hx)

/-- **Executions stay in what they could reach when they began**, for any number of steps. -/
theorem Progress.Confined.advance {i : Invocation} {h₀ : Heap} {b : Ref .mod} (n : Nat)
    {p : Progress} (hw : World.Sound ⟨p.machine.heap, p.machine.attachments⟩)
    (hp : p.Confined i h₀ b) (hb : p.machine.vm.builtins = b) :
    (p.advance n).Confined i h₀ b := by
  induction n generalizing p with
  | zero => exact hp
  | succ n ih =>
    cases p with
    | running m => exact ih hw.step (hp.step hw hb) ((m.builtins_step hw).trans hb)
    | returned m v => exact hp
    | failed m e => exact hp

end AdaptiveVM
