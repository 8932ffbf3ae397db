import AdaptiveVM.Proofs.Building
import AdaptiveVM.Proofs.Instances
import AdaptiveVM.Proofs.Safety
import AdaptiveVM.Proofs.Twins

/-!
A refused attempt to specialize leaves nothing behind.

All attempts but one decide before they write. The attempt on an attribute of a class writes its
guard first and then looks at the shape of the instance, which refuses it if it has no token. A
shape goes without a token only when the source of shapes has come to its end; so as long as the
sources last, no refusal has written anything.
-/

namespace AdaptiveVM

/-! ### What heaps become -/

namespace Heap

variable {h h' h'' : Heap}

/-- What a heap can become along a history: requests are served, operands taken, units added. -/
inductive Becomes (h : Heap) : Heap → Prop where
  | same : Becomes h h
  | served {h' : Heap} (before : Becomes h h') (r : Request) : Becomes h (h'.serve r)
  | drawn {h' : Heap} (before : Becomes h h') (s : Array Random.Source) :
      Becomes h { h' with sources := s }
  | coded {h' : Heap} (before : Becomes h h') (u : CodeUnit) : Becomes h (h'.newUnit u).2

namespace Becomes

lemma trans (a : Becomes h h') (b : Becomes h' h'') : Becomes h h'' := by
  induction b with
  | same => exact a
  | served _ r ih => exact ih.served r
  | drawn _ s ih => exact ih.drawn s
  | coded _ u ih => exact ih.coded u

lemma create (c : Config) (h : Heap) : Becomes h (Vm.create c h).2 := by
  rw [Vm.create_eq]
  generalize Builtins.table = ts
  exact Builtins.installAll_keeps (fun _ r _ hb => hb.served r) ts .same

end Becomes

/-- What one action can do to a heap. -/
inductive Changes (h : Heap) : Heap → Prop where
  | same : Changes h h
  | served (r : Request) : Changes h (h.serve r)
  | drawn (s : Array Random.Source) : Changes h { h with sources := s }
  | coded (u : CodeUnit) : Changes h (h.newUnit u).2
  | created (c : Config) : Changes h (Vm.create c h).2

lemma Changes.of_written (hw : h.Written h') : Changes h h' := by
  cases hw with
  | same => exact .same
  | served r _ => exact .served r
  | drawn s => exact .drawn s

lemma Changes.becomes (hc : Changes h h') : Becomes h h' := by
  cases hc with
  | same => exact .same
  | served r => exact .served .same r
  | drawn s => exact .drawn .same s
  | coded u => exact .coded .same u
  | created c => exact .create c h

end Heap

namespace Process

variable {p : Process}

/-- **What an action can do to the heap.** -/
lemma perform_changes (p : Process) (a : Action) :
    p.world.heap.Changes (p.perform a).world.heap := by
  cases a with
  | request r => exact .served r
  | addUnit code =>
    dsimp only [perform]
    split
    · next u _ => exact .coded u
    · exact .same
  | quicken unit limit => exact .same
  | newVm config =>
    dsimp only [perform]
    split
    · next config' _ =>
      have hnew := Heap.Changes.created (h := p.world.heap) config'
      generalize Vm.create config' p.world.heap = made at hnew ⊢
      exact hnew
    · exact .same
  | setMode vm mode => exact .same
  | resetStats vm => exact .same
  | watch vm observed => exact .same
  | invoke vm invocation =>
    dsimp only [perform]
    split
    · exact .of_written (invocation.start_written p.world _)
    · exact .same
  | step =>
    dsimp only [perform]
    split
    · next m _ hm =>
      rw [show p.world.heap = m.heap from (machine?_eq_some hm).1.symm]
      exact .of_written m.step_written
    · exact .same

lemma perform_becomes (p : Process) (a : Action) :
    p.world.heap.Becomes (p.perform a).world.heap :=
  (perform_changes p a).becomes

lemma after_becomes (p : Process) (as : List Action) :
    p.world.heap.Becomes (p.after as).world.heap := by
  induction as generalizing p with
  | nil => exact .same
  | cons a as ih => exact (perform_becomes p a).trans (ih (p.perform a))

end Process

lemma Heap.Stamped.becomes {h h' : Heap} (hh : h.Stamped) (hb : h.Becomes h') : h'.Stamped := by
  induction hb with
  | same => exact hh
  | served _ r ih => exact ih.serve r
  | drawn _ s ih => exact ih.of_eq rfl rfl
  | coded _ u ih => exact ih.of_eq rfl rfl

/-! ### What the specializers come to -/

namespace Specialize

/-- The attempt that the specializer of a family comes to in a heap, with the values it is made
for. -/
inductive Offers (h : Heap) : Family → List Value → Attempt → Prop where
  | loadGlobal (globals builtins : Nat) (key : String) :
      Offers h .loadGlobal []
        (Specialize.loadGlobal (h.namespaceAt globals) (h.namespaceAt builtins) key)
  | loadAttr (receiver : Value) (key : String) :
      Offers h .loadAttr [receiver] (Specialize.loadAttr h receiver key)
  | call (callee : Value) (argc : UInt8) :
      Offers h .call [callee] (Specialize.call h callee argc)
  | binaryAdd (left right : Value) :
      Offers h .binaryAdd [left, right] (Specialize.binaryAdd left right)

variable {h : Heap} {fam : Family} {vs : List Value} {t : Attempt}

lemma Offers.fits (ho : Offers h fam vs t) : t.Fits fam := by
  cases ho with
  | loadGlobal => exact loadGlobal_fits ..
  | loadAttr => exact loadAttr_fits ..
  | call => exact call_fits ..
  | binaryAdd => exact binaryAdd_fits ..

end Specialize

/-- What an execution finds at an adaptive site is what a specializer comes to. -/
lemma Machine.Finds.offers {h : Heap} {u : CodeUnit} {q : Quickened} {p : Nat} {fam : Family}
    {t : Attempt} (hf : Finds h u q p fam (.adaptive t)) : ∃ vs, Specialize.Offers h fam vs t := by
  generalize ht : Trial.adaptive t = trial at hf
  cases hf with
  | @loadGlobal member key globals builtins holds _ _ =>
    cases member <;> cases ht
    exact ⟨_, .loadGlobal globals builtins key⟩
  | @loadAttr member key receiver holds _ _ =>
    cases member <;> cases ht
    exact ⟨_, .loadAttr receiver key⟩
  | @call member callee holds _ =>
    cases member <;> cases ht
    exact ⟨_, .call callee _⟩
  | @binaryAdd member left right holds _ =>
    cases member <;> cases ht
    exact ⟨_, .binaryAdd left right⟩

/-- Where there are shapes, every instance has one with a token. -/
lemma Heap.Stamped.shapeOf {h : Heap} (hh : h.Stamped) (hs : h.Shaped) (hpos : 0 < h.shapes.size)
    (hl : h.tokens.shapes.upcoming ≠ TokenSource.limit) (o : Ref .inst) : (h.shapeOf o).id ≠ 0 := by
  refine hh.numbered hl _ ?_
  rcases (hs.fields o.id).1 with hlt | hzero
  · exact hlt
  · rw [instanceAt, hzero]
    exact hpos

namespace Specialize

variable {h : Heap} {fam : Family} {vs : List Value} {t : Attempt} {reason : Refusal}
  {receiver : Value} {key : String}

/-- A shape that has a token is no reason to refuse when the guard has been written. -/
lemma classAttribute_refused {shape : Token} {attributes : Namespace}
    (hs : shape ≠ 0) (hv : (classAttribute shape attributes key).verdict = .error reason) :
    classAttribute shape attributes key = .refuse reason := by
  rcases classAttribute_cases shape attributes key with
    ⟨reason', he⟩ | ⟨guard, hzero, -⟩ | ⟨index, -, -, -, he⟩
  · rw [he] at hv ⊢
    cases hv
    rfl
  · exact absurd hzero hs
  · rw [he] at hv
    cases hv

lemma loadAttr_refused (hid : ∀ o, Value.inst o = receiver → (h.shapeOf o).id ≠ 0)
    (hv : (loadAttr h receiver key).verdict = .error reason) :
    loadAttr h receiver key = .refuse reason := by
  cases receiver with
  | inst o =>
    unfold loadAttr at hv ⊢
    dsimp only at hv ⊢
    split at hv
    · next i _ =>
      rcases instanceValue_cases (h.shapeOf o).id i with ⟨reason', he⟩ | ⟨index, -, -, he⟩
      · rw [he] at hv ⊢
        cases hv
        rfl
      · rw [he] at hv
        cases hv
    · exact classAttribute_refused (hid o rfl) hv
  | mod m =>
    unfold loadAttr at hv ⊢
    dsimp only at hv ⊢
    rcases moduleAttribute_cases (h.namespaceAt m.id) key with ⟨reason', he⟩ | ⟨index, -, -, he⟩
    · rw [he] at hv ⊢
      cases hv
      rfl
    · rw [he] at hv
      cases hv
  | _ =>
    cases hv
    rfl

/-- **A refused attempt has written nothing**, if the instances it is made for have shapes with
tokens. -/
theorem Offers.eq_refuse (ho : Offers h fam vs t)
    (hid : ∀ o, Value.inst o ∈ vs → (h.shapeOf o).id ≠ 0) (hv : t.verdict = .error reason) :
    t = .refuse reason := by
  cases ho with
  | loadGlobal globals builtins key =>
    rcases loadGlobal_cases (h.namespaceAt globals) (h.namespaceAt builtins) key with
      ⟨reason', he⟩ | ⟨index, -, -, he⟩ | ⟨index, -, -, -, -, he⟩
    all_goals
      rw [he] at hv ⊢
      cases hv
    rfl
  | loadAttr receiver key =>
    refine loadAttr_refused (fun o ho => hid o ?_) hv
    rw [ho]
    exact List.mem_cons_self
  | call callee argc =>
    rcases call_cases h callee argc with ⟨reason', he⟩ | ⟨f, -, -, -, he⟩ | ⟨b, -, -, -, he⟩
    all_goals
      rw [he] at hv ⊢
      cases hv
    rfl
  | binaryAdd left right =>
    rcases binaryAdd_cases left right with ⟨reason', he⟩ | ⟨member, -, he⟩
    all_goals
      rw [he] at hv ⊢
      cases hv
    rfl

end Specialize

end AdaptiveVM
