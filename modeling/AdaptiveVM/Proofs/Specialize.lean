import AdaptiveVM.Machine.Adaptive
import AdaptiveVM.Proofs.Site

/-!
What an attempt to specialize can come to.

For each family the attempts are laid out once, with everything that is known when a member is
chosen. That an attempt stays within its family, and so every event at a site of the family does,
is read off these cases.
-/

namespace AdaptiveVM

namespace Specialize

lemma slot?_eq_some {i : Nat} {index : UInt16} (h : slot? i = some index) : i = index.toNat := by
  unfold slot? at h
  split at h
  · next hi =>
    cases h
    exact (Nat.mod_eq_of_lt hi).symm
  · cases h

/-! ### The attempts of each family -/

lemma loadGlobal_cases (globals builtins : Namespace) (key : String) :
    (∃ reason, loadGlobal globals builtins key = .refuse reason) ∨
    (∃ index : UInt16, globals.keysVersion ≠ 0 ∧ globals.indexOf? key = some index.toNat ∧
      loadGlobal globals builtins key =
        { guard := some ⟨index, 0⟩
          versions := some ⟨globals.keysVersion, 0⟩
          verdict := .ok (.loadGlobal .mod) }) ∨
    (∃ index : UInt16, globals.keysVersion ≠ 0 ∧ builtins.keysVersion ≠ 0 ∧
      globals.indexOf? key = none ∧ builtins.indexOf? key = some index.toNat ∧
      loadGlobal globals builtins key =
        { guard := some ⟨index, 0⟩
          versions := some ⟨globals.keysVersion, builtins.keysVersion⟩
          verdict := .ok (.loadGlobal .builtin) }) := by
  unfold loadGlobal
  split
  · exact .inl ⟨_, rfl⟩
  · next hg =>
    split
    · next i hi =>
      split
      · exact .inl ⟨_, rfl⟩
      · next index hs => exact .inr (.inl ⟨index, hg, by rw [hi, slot?_eq_some hs], rfl⟩)
    · next hi =>
      split
      · exact .inl ⟨_, rfl⟩
      · next hb =>
        split
        · exact .inl ⟨_, rfl⟩
        · next i hi' =>
          split
          · exact .inl ⟨_, rfl⟩
          · next index hs =>
            exact .inr (.inr ⟨index, hg, hb, hi, by rw [hi', slot?_eq_some hs], rfl⟩)

lemma instanceValue_cases (shape : Token) (i : Nat) :
    (∃ reason, instanceValue shape i = .refuse reason) ∨
    (∃ index : UInt16, i = index.toNat ∧ shape ≠ 0 ∧
      instanceValue shape i =
        { guard := some ⟨index, shape⟩, verdict := .ok (.loadAttr .instanceValue) }) := by
  unfold instanceValue
  split
  · exact .inl ⟨_, rfl⟩
  · next index hs =>
    split
    · exact .inl ⟨_, rfl⟩
    · next hne => exact .inr ⟨index, slot?_eq_some hs, hne, rfl⟩

/-- The shape is looked at last, so a refusal may leave a guard behind, though no member. -/
lemma classAttribute_cases (shape : Token) (attributes : Namespace) (key : String) :
    (∃ reason, classAttribute shape attributes key = .refuse reason) ∨
    (∃ guard, shape = 0 ∧ classAttribute shape attributes key =
      { guard := some guard, verdict := .error .unversioned }) ∨
    (∃ index : UInt16, shape ≠ 0 ∧ attributes.keysVersion ≠ 0 ∧
      attributes.indexOf? key = some index.toNat ∧
      classAttribute shape attributes key =
        { guard := some ⟨index, attributes.keysVersion⟩
          versions := some ⟨shape, 0⟩
          verdict := .ok (.loadAttr .cls) }) := by
  unfold classAttribute
  split
  · exact .inl ⟨_, rfl⟩
  · next ha =>
    split
    · exact .inl ⟨_, rfl⟩
    · next i hi =>
      split
      · exact .inl ⟨_, rfl⟩
      · next index hs =>
        split
        · next h0 => exact .inr (.inl ⟨_, h0, rfl⟩)
        · next hne => exact .inr (.inr ⟨index, hne, ha, by rw [hi, slot?_eq_some hs], rfl⟩)

lemma moduleAttribute_cases (names : Namespace) (key : String) :
    (∃ reason, moduleAttribute names key = .refuse reason) ∨
    (∃ index : UInt16, names.keysVersion ≠ 0 ∧ names.indexOf? key = some index.toNat ∧
      moduleAttribute names key =
        { guard := some ⟨index, names.keysVersion⟩, verdict := .ok (.loadAttr .mod) }) := by
  unfold moduleAttribute
  split
  · exact .inl ⟨_, rfl⟩
  · next hn =>
    split
    · exact .inl ⟨_, rfl⟩
    · next i hi =>
      split
      · exact .inl ⟨_, rfl⟩
      · next index hs => exact .inr ⟨index, hn, by rw [hi, slot?_eq_some hs], rfl⟩

lemma callee_cases (version : Token) (member : CallMember) :
    (∃ reason, callee version member = .refuse reason) ∨
    (version ≠ 0 ∧
      callee version member = { guard := some ⟨0, version⟩, verdict := .ok (.call member) }) := by
  unfold callee
  split
  · exact .inl ⟨_, rfl⟩
  · next hne => exact .inr ⟨hne, rfl⟩

lemma call_cases (h : Heap) (target : Value) (argc : UInt8) :
    (∃ reason, call h target argc = .refuse reason) ∨
    (∃ f, target = .function f ∧ (h.functionAt f).version ≠ 0 ∧
      (h.unitAt (h.functionAt f).unit).argcount = argc ∧
      call h target argc =
        { guard := some ⟨0, (h.functionAt f).version⟩, verdict := .ok (.call .functionExact) }) ∨
    (∃ b, target = .builtin b ∧ (h.builtinAt b).id ≠ 0 ∧ (h.builtinAt b).arity = some argc ∧
      call h target argc =
        { guard := some ⟨0, (h.builtinAt b).id⟩, verdict := .ok (.call .builtin) }) := by
  unfold call
  split
  · next f =>
    dsimp only
    split
    · exact .inl ⟨_, rfl⟩
    · next hc =>
      rcases callee_cases (h.functionAt f).version .functionExact with hr | ⟨hne, he⟩
      · exact .inl hr
      · exact .inr (.inl ⟨f, rfl, hne, not_not.mp hc, he⟩)
  · next b =>
    dsimp only
    split
    · exact .inl ⟨_, rfl⟩
    · next arity ha =>
      split
      · exact .inl ⟨_, rfl⟩
      · next hc =>
        rcases callee_cases (h.builtinAt b).id .builtin with hr | ⟨hne, he⟩
        · exact .inl hr
        · exact .inr (.inr ⟨b, rfl, hne, by rw [ha, not_not.mp hc], he⟩)
  · exact .inl ⟨_, rfl⟩

lemma binaryAdd_cases (left right : Value) :
    (∃ reason, binaryAdd left right = .refuse reason) ∨
    (∃ member, member ≠ .adaptive ∧
      binaryAdd left right = { verdict := .ok (.binaryAdd member) }) := by
  unfold binaryAdd
  split
  · exact .inr ⟨.int, by decide, rfl⟩
  · exact .inr ⟨.float, by decide, rfl⟩
  · exact .inr ⟨.str, by decide, rfl⟩
  · exact .inl ⟨_, rfl⟩

end Specialize

/-! ### Attempts stay within their family -/

namespace Attempt

variable {t : Attempt} {family : Family}

lemma refuse_fits (reason : Refusal) (family : Family) : (refuse reason).Fits family :=
  ⟨fun _ h => by simp [refuse] at h, fun _ => ⟨rfl, rfl⟩⟩

lemma fits_of_error {reason : Refusal} (hv : t.verdict = .error reason)
    (he : family.entries ≠ 0) : t.Fits family :=
  ⟨fun _ h => by simp [hv] at h, fun h => absurd h he⟩

lemma fits_of_ok {op : QuickOp} (hv : t.verdict = .ok op) (hf : op.family? = some family)
    (ha : op.isAdaptive = false) (he : family.entries ≠ 0) : t.Fits family := by
  refine ⟨fun op' h => ?_, fun h => absurd h he⟩
  rw [hv] at h
  cases h
  exact ⟨hf, ha⟩

end Attempt

namespace Specialize

lemma loadGlobal_fits (globals builtins : Namespace) (key : String) :
    (loadGlobal globals builtins key).Fits .loadGlobal := by
  rcases loadGlobal_cases globals builtins key with
    ⟨reason, he⟩ | ⟨_, _, _, he⟩ | ⟨_, _, _, _, _, he⟩
  · rw [he]
    exact Attempt.refuse_fits reason _
  · rw [he]
    exact Attempt.fits_of_ok rfl rfl rfl (by decide)
  · rw [he]
    exact Attempt.fits_of_ok rfl rfl rfl (by decide)

lemma loadAttr_fits (h : Heap) (receiver : Value) (key : String) :
    (loadAttr h receiver key).Fits .loadAttr := by
  unfold loadAttr
  split
  · next o =>
    split
    · next i _ =>
      rcases instanceValue_cases (h.shapeOf o).id i with ⟨reason, he⟩ | ⟨_, _, _, he⟩
      · rw [he]
        exact Attempt.refuse_fits reason _
      · rw [he]
        exact Attempt.fits_of_ok rfl rfl rfl (by decide)
    · rcases classAttribute_cases (h.shapeOf o).id (h.attributesOf (h.instanceAt o).cls) key with
        ⟨reason, he⟩ | ⟨_, _, he⟩ | ⟨_, _, _, _, he⟩
      · rw [he]
        exact Attempt.refuse_fits reason _
      · rw [he]
        exact Attempt.fits_of_error rfl (by decide)
      · rw [he]
        exact Attempt.fits_of_ok rfl rfl rfl (by decide)
  · next m =>
    rcases moduleAttribute_cases (h.namespaceAt m.id) key with ⟨reason, he⟩ | ⟨_, _, _, he⟩
    · rw [he]
      exact Attempt.refuse_fits reason _
    · rw [he]
      exact Attempt.fits_of_ok rfl rfl rfl (by decide)
  · exact Attempt.refuse_fits _ _

lemma call_fits (h : Heap) (target : Value) (argc : UInt8) :
    (call h target argc).Fits .call := by
  rcases call_cases h target argc with ⟨reason, he⟩ | ⟨_, _, _, _, he⟩ | ⟨_, _, _, _, he⟩
  · rw [he]
    exact Attempt.refuse_fits reason _
  · rw [he]
    exact Attempt.fits_of_ok rfl rfl rfl (by decide)
  · rw [he]
    exact Attempt.fits_of_ok rfl rfl rfl (by decide)

lemma binaryAdd_fits (left right : Value) : (binaryAdd left right).Fits .binaryAdd := by
  rcases binaryAdd_cases left right with ⟨reason, he⟩ | ⟨member, hne, he⟩
  · rw [he]
    exact Attempt.refuse_fits reason _
  · rw [he]
    refine ⟨fun op hop => ?_, fun _ => ⟨rfl, rfl⟩⟩
    cases hop
    refine ⟨rfl, ?_⟩
    cases member with
    | adaptive => exact absurd rfl hne
    | int => rfl
    | float => rfl
    | str => rfl

end Specialize

/-! ### Trials and their events -/

namespace Trial

/-- A trial of a site says whether its member is adaptive, and an attempt fits the family. -/
def Fits (op : QuickOp) (family : Family) : Trial → Prop
  | .adaptive attempt => op.isAdaptive = true ∧ attempt.Fits family
  | .guarded _ => op.isAdaptive = false

variable {op : QuickOp} {family : Family} {c : Config} {n : UInt8}

lemma loadGlobal_fits (member : LoadGlobalMember) (holds : Bool) {attempt : Attempt}
    (ha : attempt.Fits .loadGlobal) :
    (member.trial holds attempt).Fits (.loadGlobal member) .loadGlobal := by
  cases member with
  | adaptive => exact ⟨rfl, ha⟩
  | mod => exact rfl
  | builtin => exact rfl

lemma loadAttr_fits (member : LoadAttrMember) (holds : Bool) {attempt : Attempt}
    (ha : attempt.Fits .loadAttr) :
    (member.trial holds attempt).Fits (.loadAttr member) .loadAttr := by
  cases member with
  | adaptive => exact ⟨rfl, ha⟩
  | instanceValue => exact rfl
  | cls => exact rfl
  | mod => exact rfl

lemma call_fits (member : CallMember) (holds : Bool) {attempt : Attempt}
    (ha : attempt.Fits .call) : (member.trial holds attempt).Fits (.call member) .call := by
  cases member with
  | adaptive => exact ⟨rfl, ha⟩
  | functionExact => exact rfl
  | builtin => exact rfl

lemma binaryAdd_fits (member : BinaryAddMember) (holds : Bool) {attempt : Attempt}
    (ha : attempt.Fits .binaryAdd) :
    (member.trial holds attempt).Fits (.binaryAdd member) .binaryAdd := by
  cases member with
  | adaptive => exact ⟨rfl, ha⟩
  | int => exact rfl
  | float => exact rfl
  | str => exact rfl

/-- The event of an adaptive execution: it is counted, or the attempt decides. -/
lemma event_adaptive_cases (c : Config) (n : UInt8) (attempt : Attempt) :
    (saturatingAdd n 1 < c.specializeThreshold ∧
      (adaptive attempt).event c n = .counted (saturatingAdd n 1)) ∨
    (c.specializeThreshold ≤ saturatingAdd n 1 ∧
      ((∃ op, attempt.verdict = .ok op ∧
          (adaptive attempt).event c n = .specialized op attempt c.policy.initial) ∨
        ∃ reason, attempt.verdict = .error reason ∧
          (adaptive attempt).event c n = .refused reason attempt)) := by
  unfold event
  dsimp only
  split
  · next hlt => exact .inl ⟨hlt, rfl⟩
  · next hlt =>
    refine .inr ⟨UInt8.not_lt.mp hlt, ?_⟩
    rcases hv : attempt.verdict with reason | op
    · exact .inr ⟨reason, rfl, rfl⟩
    · exact .inl ⟨op, rfl, rfl⟩

/-- The event of a guard: the counter moves, or the site falls back. -/
lemma event_guarded_cases (c : Config) (n : UInt8) (holds : Bool) :
    (holds = true ∧ (guarded holds).event c n = .hit (c.policy.hit n)) ∨
    (holds = false ∧ c.policy.falls (c.policy.miss n) = false ∧
      (guarded holds).event c n = .missed (c.policy.miss n)) ∨
    (holds = false ∧ c.policy.falls (c.policy.miss n) = true ∧
      (guarded holds).event c n = .fellBack) := by
  cases holds with
  | true => exact .inl ⟨rfl, rfl⟩
  | false =>
    unfold event
    dsimp only
    split
    · next hf => exact .inr (.inr ⟨rfl, hf, rfl⟩)
    · next hf => exact .inr (.inl ⟨rfl, by simpa using hf, rfl⟩)

/-- A trial of a site gives an event that the site can see. -/
lemma event_fits {t : Trial} (ht : t.Fits op family) : (t.event c n).Fits family := by
  cases t with
  | adaptive attempt =>
    rcases event_adaptive_cases c n attempt with ⟨-, he⟩ | ⟨-, ⟨op', hv, he⟩ | ⟨reason, -, he⟩⟩
    · rw [he]
      exact ⟨fun _ h => h, fun t ht => by simp [SiteEvent.attempt?] at ht⟩
    · rw [he]
      refine ⟨fun _ _ => (ht.2.member op' hv).1, fun t hs => ?_⟩
      cases hs
      exact ht.2.silent
    · rw [he]
      refine ⟨fun _ h => h, fun t hs => ?_⟩
      cases hs
      exact ht.2.silent
  | guarded holds =>
    rcases event_guarded_cases c n holds with ⟨-, he⟩ | ⟨-, -, he⟩ | ⟨-, -, he⟩
    · rw [he]
      exact ⟨fun _ h => h, fun t ht => by simp [SiteEvent.attempt?] at ht⟩
    · rw [he]
      exact ⟨fun _ h => h, fun t ht => by simp [SiteEvent.attempt?] at ht⟩
    · rw [he]
      exact ⟨fun _ _ => Quickened.family_adaptive family,
        fun t ht => by simp [SiteEvent.attempt?] at ht⟩

end Trial

end AdaptiveVM
