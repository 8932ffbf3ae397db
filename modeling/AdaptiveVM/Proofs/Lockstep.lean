import AdaptiveVM.Proofs.Tracing
import AdaptiveVM.Proofs.Twins

/-!
Machines on twin worlds take the same steps.

The words of a site hold tokens, and only the member at the site says which kind they are of. Twin
streams have the same members, operands and counters everywhere; where a member is specialized, its
words hold the same index, and tokens that are apart by the distance of the kind that the member
compares them with. What an adaptive site has left in its words may be anything. So a guard holds on
one side if it holds on the other, and a machine and its twin go on in the same way.
-/

namespace AdaptiveVM

/-! ### The words of a site -/

/-- The tokens that a member compares, each with the kind of what it is compared with. -/
def QuickOp.tokens (op : QuickOp) (e : Entry) (v : VersionPair) : List (TokenKind × Token) :=
  match op with
  | .loadGlobal .mod => [(.keys, v.first)]
  | .loadGlobal .builtin => [(.keys, v.first), (.keys, v.second)]
  | .loadAttr .instanceValue => [(.shapes, e.version)]
  | .loadAttr .cls => [(.keys, e.version), (.shapes, v.first)]
  | .loadAttr .mod => [(.keys, e.version)]
  | .call .functionExact => [(.functions, e.version)]
  | .call .builtin => [(.builtins, e.version)]
  | _ => []

/-- Words in which a member finds the same index, and tokens at the distances of their kinds. -/
structure QuickOp.Alike (d : TokenKind → ℤ) (op : QuickOp) (e : Entry) (v : VersionPair)
    (e' : Entry) (v' : VersionPair) : Prop where
  index : e'.index = e.index
  tokens : List.Forall₂ (fun x x' => x'.1 = x.1 ∧ Token.Shifted (d x.1) x.2 x'.2) (op.tokens e v)
    (op.tokens e' v')

/-- Streams with the same instructions, and words that differ only where no member looks, and by
the distances of tokens. -/
structure Quickened.Twin (d : TokenKind → ℤ) (q q' : Quickened) : Prop where
  instrs : q'.instrs = q.instrs
  words : q'.cache.size = q.cache.size
  /-- The operand of the static instruction. -/
  arg : ∀ p, q.hasEntries p = true → (q'.entryAt p).arg = (q.entryAt p).arg
  counter : ∀ p, q'.counter p = q.counter p
  guards : ∀ p, q.hasEntries p = true → (q.instrAt p).op.isAdaptive = false →
    (q.instrAt p).op.Alike d (q.entryAt p) (q.versionsAt p) (q'.entryAt p) (q'.versionsAt p)

/-- Equally warm, and quickened into twin streams if at all. -/
structure Attachment.Twin (d : TokenKind → ℤ) (a a' : Attachment) : Prop where
  warmup : a'.warmup = a.warmup
  quickened : Option.Rel (Quickened.Twin d) a.quickened a'.quickened

/-! ### Attempts and events -/

/-- Attempts that come to the same, and leave words alike for the member they come to. -/
structure Attempt.Twin (d : TokenKind → ℤ) (t t' : Attempt) : Prop where
  verdict : t'.verdict = t.verdict
  guards : ∀ op, t.verdict = .ok op → Quickened.owning op = true →
    ∀ e v e' v', op.Alike d (t.entry e) (t.pair v) (t'.entry e') (t'.pair v')

inductive Trial.Twin (d : TokenKind → ℤ) : Trial → Trial → Prop where
  | adaptive {t t' : Attempt} (attempt : t.Twin d t') : Twin d (.adaptive t) (.adaptive t')
  | guarded (holds : Bool) : Twin d (.guarded holds) (.guarded holds)

inductive SiteEvent.Twin (d : TokenKind → ℤ) : SiteEvent → SiteEvent → Prop where
  | same {ev : SiteEvent} (unwritten : ev.attempt? = none) : Twin d ev ev
  | specialized {t t' : Attempt} {op : QuickOp} (attempt : t.Twin d t')
      (verdict : t.verdict = .ok op) (counter : UInt8) :
      Twin d (.specialized op t counter) (.specialized op t' counter)
  | refused {t t' : Attempt} (attempt : t.Twin d t') (reason : Refusal) :
      Twin d (.refused reason t) (.refused reason t')

section Events

variable {d : TokenKind → ℤ} {t t' : Trial} {ev ev' : SiteEvent} {op : QuickOp}

lemma Trial.Twin.event (h : t.Twin d t') (c : Config) (n : UInt8) :
    (t.event c n).Twin d (t'.event c n) := by
  cases h with
  | guarded holds =>
    refine .same ?_
    rcases Trial.event_guarded_cases c n holds with ⟨-, he⟩ | ⟨-, -, he⟩ | ⟨-, -, he⟩
    all_goals rw [he]; rfl
  | @adaptive t t' attempt =>
    unfold Trial.event
    dsimp only
    rw [attempt.verdict]
    split
    · exact .same rfl
    · rcases hv : t.verdict with reason | op
      · exact .refused attempt reason
      · exact .specialized attempt hv _

lemma SiteEvent.Twin.counter (h : ev.Twin d ev') : ev'.counter = ev.counter := by
  cases h <;> rfl

lemma SiteEvent.Twin.member (h : ev.Twin d ev') (f : Family) (op : QuickOp) :
    ev'.member f op = ev.member f op := by
  cases h <;> rfl

/-- Counts do not see tokens. -/
lemma SiteEvent.Twin.record (h : ev.Twin d ev') (vm : Vm) (f : Family) :
    vm.record f ev' = vm.record f ev := by
  cases h with
  | same => rfl
  | specialized => cases f <;> rfl
  | refused => cases f <;> rfl

lemma QuickOp.tokens_counter (op : QuickOp) (e : Entry) (v : VersionPair) (n : UInt8) :
    op.tokens { e with counter := n } v = op.tokens e v := by
  unfold QuickOp.tokens
  split <;> rfl

/-- No member compares its counter. -/
lemma QuickOp.Alike.counter {e e' : Entry} {v v' : VersionPair} (h : op.Alike d e v e' v')
    (n : UInt8) : op.Alike d { e with counter := n } v { e' with counter := n } v' where
  index := h.index
  tokens := by
    rw [tokens_counter, tokens_counter]
    exact h.tokens

end Events

/-! ### Streams -/

namespace Quickened

variable {d : TokenKind → ℤ} {q q' : Quickened} {p : Nat} {f : Family} {ev ev' : SiteEvent}

lemma instrs_eq_of_instrAt (hsize : q'.instrs.size = q.instrs.size)
    (h : ∀ p, q'.instrAt p = q.instrAt p) : q'.instrs = q.instrs := by
  refine Array.ext hsize fun i hi hi' => ?_
  have hat := h i
  simpa [instrAt, Array.getD_eq_getD_getElem?, hi, hi'] using hat

/-- A stream in which nothing is specialized is its own twin. -/
lemma twin_ofCode (d : TokenKind → ℤ) (code : Array Instr) :
    (ofCode code).Twin d (ofCode code) where
  instrs := rfl
  words := rfl
  arg _ _ := rfl
  counter _ := rfl
  guards p hp hop := by
    have hfam : ((ofCode code).instrAt p).op.family?.isSome = true := by
      rw [hasEntries] at hp
      split at hp
      · next f hf => rw [hf]; rfl
      · cases hp
    rw [isAdaptive_ofCode hfam] at hop
    cases hop

namespace Twin

lemma instrAt (h : q.Twin d q') (p : Nat) : q'.instrAt p = q.instrAt p := by
  rw [Quickened.instrAt, h.instrs, Quickened.instrAt]

lemma hasEntries (h : q.Twin d q') (p : Nat) : q'.hasEntries p = q.hasEntries p := by
  rw [hasEntries_eq, h.instrAt, hasEntries_eq]

lemma laid (h : q.Twin d q') (hq : q.Laid) : q'.Laid :=
  hq.congr h.words h.hasEntries fun p _ => by rw [h.instrAt]

section Apply

variable (h : q.Twin d q') (hq : q.Laid) (hf : (q.instrAt p).op.family? = some f)
  (hfit : ev.Fits f) (hfit' : ev'.Fits f) (hev : ev.Twin d ev')

include h hf in
lemma family : (q'.instrAt p).op.family? = some f := by rw [h.instrAt, hf]

include h hq hf hfit hfit' hev

lemma counter_apply (k : Nat) : (q'.apply p f ev').counter k = (q.apply p f ev).counter k := by
  have hf' := h.family hf
  by_cases hk : k = p
  · rw [hk, Quickened.counter_apply hq hf hfit, Quickened.counter_apply (h.laid hq) hf' hfit',
      hev.counter]
  · rw [(apply_touches hf hfit).counter hq hk, (apply_touches hf' hfit').counter (h.laid hq) hk,
      h.counter]

lemma instrAt_apply (k : Nat) : (q'.apply p f ev').instrAt k = (q.apply p f ev).instrAt k := by
  have hf' := h.family hf
  have htouch := apply_touches hf hfit
  have htouch' := apply_touches hf' hfit'
  by_cases hk : k = p
  · subst hk
    have hop : ((q'.apply k f ev').instrAt k).op = ((q.apply k f ev).instrAt k).op := by
      rw [op_apply hf, op_apply hf', h.instrAt, hev.member]
    -- a site without words keeps its counter in place of the operand
    have harg : ((q'.apply k f ev').instrAt k).arg = ((q.apply k f ev).instrAt k).arg := by
      rcases hown : q.hasEntries k with _ | _
      · have hnone : (q.apply k f ev).hasEntries k = false := by rw [htouch.own, hown]
        have hnone' : (q'.apply k f ev').hasEntries k = false := by
          rw [htouch'.own, h.hasEntries, hown]
        have hc := counter_apply h hq hf hfit hfit' hev k
        simpa [Quickened.counter, hnone, hnone'] using hc
      · rw [htouch.arg hown, htouch'.arg (by rw [h.hasEntries, hown]), h.instrAt]
    rcases hi : (q.apply k f ev).instrAt k with ⟨op, arg⟩
    rcases hi' : (q'.apply k f ev').instrAt k with ⟨op', arg'⟩
    rw [hi, hi'] at hop harg
    exact congrArg₂ QuickInstr.mk hop harg
  · rw [htouch.instr k hk, htouch'.instr k hk, h.instrAt]

/-- What a specialized member finds after an event: what it has found before, or what the attempt
that led to it has left. -/
lemma alike_apply (hadaptive : ev.attempt? ≠ none → (q.instrAt p).op.isAdaptive = true)
    (hown : q.hasEntries p = true)
    (hspec : ((q.apply p f ev).instrAt p).op.isAdaptive = false) :
    ((q.apply p f ev).instrAt p).op.Alike d ((q.apply p f ev).entryAt p)
      ((q.apply p f ev).versionsAt p) ((q'.apply p f ev').entryAt p)
      ((q'.apply p f ev').versionsAt p) := by
  have hf' := h.family hf
  have hq' := h.laid hq
  have hown' : q'.hasEntries p = true := by rw [h.hasEntries, hown]
  have howning : owning (ev.member f (q.instrAt p).op) = true := by
    rw [← op_apply hf, ← hasEntries_eq, (apply_touches hf hfit).own, hown]
  rw [op_apply hf] at hspec ⊢
  rw [entryAt_apply hq hf hfit hown, entryAt_apply hq' hf' hfit' hown',
    versionsAt_apply hq hf hfit hown, versionsAt_apply hq' hf' hfit' hown', hev.counter]
  refine QuickOp.Alike.counter ?_ _
  cases hev with
  | same hnone =>
    rw [hnone]
    cases ev with
    | fellBack => rw [SiteEvent.member, isAdaptive_adaptive] at hspec; cases hspec
    | specialized => cases hnone
    | refused => cases hnone
    | counted => exact h.guards p hown hspec
    | hit => exact h.guards p hown hspec
    | missed => exact h.guards p hown hspec
  | specialized attempt verdict => exact attempt.guards _ verdict howning _ _ _ _
  | refused =>
    have hkept := hadaptive (Option.some_ne_none _)
    exact absurd (hspec.symm.trans hkept) Bool.false_ne_true

/-- **An event keeps streams twins.** An attempt is only made by an adaptive member. -/
theorem apply (hadaptive : ev.attempt? ≠ none → (q.instrAt p).op.isAdaptive = true) :
    (q.apply p f ev).Twin d (q'.apply p f ev') := by
  have hf' := h.family hf
  have hq' := h.laid hq
  have htouch := apply_touches hf hfit
  have htouch' := apply_touches hf' hfit'
  refine ⟨instrs_eq_of_instrAt ?_ (instrAt_apply h hq hf hfit hfit' hev), ?_, fun k hk => ?_,
    counter_apply h hq hf hfit hfit' hev, fun k hk hspec => ?_⟩
  · rw [htouch.size, htouch'.size, h.instrs]
  · rw [htouch.words, htouch'.words, h.words]
  · rw [htouch.hasEntries] at hk
    have hk' : q'.hasEntries k = true := by rw [h.hasEntries, hk]
    by_cases hkp : k = p
    · subst hkp
      rw [arg_entryAt_apply hq hf hfit hk, arg_entryAt_apply hq' hf' hfit' hk', h.arg k hk]
    · rw [htouch.entryAt hq hkp hk, htouch'.entryAt hq' hkp hk', h.arg k hk]
  · rw [htouch.hasEntries] at hk
    have hk' : q'.hasEntries k = true := by rw [h.hasEntries, hk]
    by_cases hkp : k = p
    · subst hkp
      exact alike_apply h hq hf hfit hfit' hev hadaptive hk hspec
    · rw [htouch.instr k hkp] at hspec ⊢
      rw [htouch.entryAt hq hkp hk, htouch'.entryAt hq' hkp hk', htouch.versionsAt hq hkp hk,
        htouch'.versionsAt hq' hkp hk']
      exact h.guards k hk hspec

end Apply

end Twin

end Quickened

/-! ### Attempts to specialize -/

section Attempts

variable {d : TokenKind → ℤ} {h h' : Heap}

lemma Attempt.Twin.refuse (d : TokenKind → ℤ) (reason : Refusal) :
    (Attempt.refuse reason).Twin d (Attempt.refuse reason) :=
  ⟨rfl, fun _ hv => by cases hv⟩

/-- Attempts that both write their guards, and come to one member. -/
lemma Attempt.Twin.of_ok {g g' : Guard} {x x' : Option VersionPair} {op : QuickOp}
    (halike : ∀ e v e' v', op.Alike d
      (Attempt.entry { guard := some g, versions := x, verdict := .ok op } e) (x.getD v)
      (Attempt.entry { guard := some g', versions := x', verdict := .ok op } e') (x'.getD v')) :
    Attempt.Twin d { guard := some g, versions := x, verdict := .ok op }
      { guard := some g', versions := x', verdict := .ok op } := by
  refine ⟨rfl, fun op' hv _ e v e' v' => ?_⟩
  cases hv
  exact halike e v e' v'

lemma Specialize.loadGlobal_twin {globals globals' builtins builtins' : Namespace}
    (hg : globals.Twin (d .keys) globals') (hb : builtins.Twin (d .keys) builtins') (key : String) :
    (loadGlobal globals builtins key).Twin d (loadGlobal globals' builtins' key) := by
  unfold loadGlobal
  rw [hg.indexOf?_eq, hb.indexOf?_eq]
  by_cases hz : globals.keysVersion = 0
  · rw [if_pos hz, if_pos (hg.version.eq_zero_iff.mpr hz)]
    exact .refuse d _
  rw [if_neg hz, if_neg (hg.version.eq_zero_iff.not.mpr hz)]
  have hfirst := hg.version.shifted hz
  rcases globals.indexOf? key with _ | i
  · by_cases hzb : builtins.keysVersion = 0
    · simp only [if_pos hzb, if_pos (hb.version.eq_zero_iff.mpr hzb)]
      exact .refuse d _
    simp only [if_neg hzb, if_neg (hb.version.eq_zero_iff.not.mpr hzb)]
    have hsecond := hb.version.shifted hzb
    rcases builtins.indexOf? key with _ | i
    · exact .refuse d _
    · dsimp only
      rcases slot? i with _ | index
      · exact .refuse d _
      · exact .of_ok fun _ _ _ _ => ⟨rfl, .cons ⟨rfl, hfirst⟩ (.cons ⟨rfl, hsecond⟩ .nil)⟩
  · dsimp only
    rcases slot? i with _ | index
    · exact .refuse d _
    · exact .of_ok fun _ _ _ _ => ⟨rfl, .cons ⟨rfl, hfirst⟩ .nil⟩

lemma Specialize.instanceValue_twin {shape shape' : Token}
    (hs : Token.Apart (d .shapes) shape shape') (i : Nat) :
    (instanceValue shape i).Twin d (instanceValue shape' i) := by
  unfold instanceValue
  rcases slot? i with _ | index
  · exact .refuse d _
  dsimp only
  by_cases hz : shape = 0
  · rw [if_pos hz, if_pos (hs.eq_zero_iff.mpr hz)]
    exact .refuse d _
  · rw [if_neg hz, if_neg (hs.eq_zero_iff.not.mpr hz)]
    exact .of_ok fun _ _ _ _ => ⟨rfl, .cons ⟨rfl, hs.shifted hz⟩ .nil⟩

lemma Specialize.classAttribute_twin {shape shape' : Token} {names names' : Namespace}
    (hs : Token.Apart (d .shapes) shape shape') (hn : names.Twin (d .keys) names') (key : String) :
    (classAttribute shape names key).Twin d (classAttribute shape' names' key) := by
  unfold classAttribute
  rw [hn.indexOf?_eq]
  by_cases hzn : names.keysVersion = 0
  · rw [if_pos hzn, if_pos (hn.version.eq_zero_iff.mpr hzn)]
    exact .refuse d _
  rw [if_neg hzn, if_neg (hn.version.eq_zero_iff.not.mpr hzn)]
  have hkeys := hn.version.shifted hzn
  rcases names.indexOf? key with _ | i
  · exact .refuse d _
  dsimp only
  rcases slot? i with _ | index
  · exact .refuse d _
  dsimp only
  by_cases hz : shape = 0
  · rw [if_pos hz, if_pos (hs.eq_zero_iff.mpr hz)]
    exact ⟨rfl, fun _ hv => by cases hv⟩
  · rw [if_neg hz, if_neg (hs.eq_zero_iff.not.mpr hz)]
    exact .of_ok fun _ _ _ _ =>
      ⟨rfl, .cons ⟨rfl, hkeys⟩ (.cons ⟨rfl, hs.shifted hz⟩ .nil)⟩

lemma Specialize.moduleAttribute_twin {names names' : Namespace} (hn : names.Twin (d .keys) names')
    (key : String) : (moduleAttribute names key).Twin d (moduleAttribute names' key) := by
  unfold moduleAttribute
  rw [hn.indexOf?_eq]
  by_cases hz : names.keysVersion = 0
  · rw [if_pos hz, if_pos (hn.version.eq_zero_iff.mpr hz)]
    exact .refuse d _
  rw [if_neg hz, if_neg (hn.version.eq_zero_iff.not.mpr hz)]
  rcases names.indexOf? key with _ | i
  · exact .refuse d _
  dsimp only
  rcases slot? i with _ | index
  · exact .refuse d _
  · exact .of_ok fun _ _ _ _ => ⟨rfl, .cons ⟨rfl, hn.version.shifted hz⟩ .nil⟩

lemma Specialize.loadAttr_twin (ht : h.Twin d h') (receiver : Value) (key : String) :
    (loadAttr h receiver key).Twin d (loadAttr h' receiver key) := by
  cases receiver with
  | inst o =>
    simp only [loadAttr]
    rw [ht.fieldIndex, ht.instanceAt]
    rcases (h.shapeOf o).indexOf? key with _ | i
    · exact classAttribute_twin (ht.shapeOf o).id (ht.attributesOf _) key
    · exact instanceValue_twin (ht.shapeOf o).id i
  | mod m => exact moduleAttribute_twin (ht.namespaceAt m.id) key
  | _ => exact .refuse d _

/-- A call is guarded by the one token of what is called. -/
lemma Specialize.callee_twin {k : TokenKind} {version version' : Token}
    (hv : Token.Apart (d k) version version') {member : CallMember}
    (hm : ∀ e v, (QuickOp.call member).tokens e v = [(k, e.version)]) :
    (callee version member).Twin d (callee version' member) := by
  unfold callee
  by_cases hz : version = 0
  · rw [if_pos hz, if_pos (hv.eq_zero_iff.mpr hz)]
    exact .refuse d _
  · rw [if_neg hz, if_neg (hv.eq_zero_iff.not.mpr hz)]
    refine .of_ok fun _ _ _ _ => ⟨rfl, ?_⟩
    rw [hm, hm]
    exact .cons ⟨rfl, hv.shifted hz⟩ .nil

lemma Specialize.call_twin (ht : h.Twin d h') (target : Value) (argc : UInt8) :
    (call h target argc).Twin d (call h' target argc) := by
  cases target with
  | function f =>
    have hf := ht.functionAt f
    simp only [call]
    rw [hf.unit, ht.unitAt]
    split
    · exact .refuse d _
    · exact callee_twin hf.version fun _ _ => rfl
  | builtin b =>
    have hb := ht.builtinAt b
    simp only [call]
    rw [hb.arity]
    rcases (h.builtinAt b).arity with _ | arity
    · exact .refuse d _
    dsimp only
    split
    · exact .refuse d _
    · exact callee_twin hb.id fun _ _ => rfl
  | _ => exact .refuse d _

lemma Specialize.binaryAdd_twin (d : TokenKind → ℤ) (left right : Value) :
    (binaryAdd left right).Twin d (binaryAdd left right) := by
  refine ⟨rfl, fun op hv howning => ?_⟩
  rcases binaryAdd_cases left right with ⟨reason, he⟩ | ⟨member, -, he⟩
  · rw [he] at hv
    cases hv
  · rw [he] at hv
    cases hv
    cases howning

end Attempts

/-! ### Attachments -/

namespace Attachment.Twin

variable {d : TokenKind → ℤ} {a a' : Attachment}

lemma tick (h : a.Twin d a') : a.tick.Twin d a'.tick := by
  refine ⟨?_, h.quickened⟩
  rw [Attachment.tick, Attachment.tick, h.warmup]

lemma cool (h : a.Twin d a') : a.cool.Twin d a'.cool := ⟨rfl, h.quickened⟩

/-- A unit that has just been quickened. -/
lemma install (h : a.Twin d a') (code : Array Instr) :
    (a.install (.ofCode code)).Twin d (a'.install (.ofCode code)) :=
  ⟨h.warmup, .some (Quickened.twin_ofCode d code)⟩

lemma isSome_quickened (h : a.Twin d a') : a'.quickened.isSome = a.quickened.isSome := by
  have hq := h.quickened
  generalize a.quickened = x at hq ⊢
  generalize a'.quickened = x' at hq ⊢
  cases hq <;> rfl

/-- The twin of a stream. -/
lemma exists_stream (h : a.Twin d a') {q : Quickened} (hq : a.quickened = some q) :
    ∃ q', a'.quickened = some q' ∧ q.Twin d q' := by
  have hrel := h.quickened
  rw [hq] at hrel
  generalize a'.quickened = x' at hrel ⊢
  cases hrel with
  | some hstream => exact ⟨_, rfl, hstream⟩

end Attachment.Twin

/-! ### Guards -/

section Guards

variable {d : TokenKind → ℤ} {h h' : Heap} {e e' : Entry} {v v' : VersionPair}

lemma LoadGlobalMember.probe_twin {globals globals' builtins builtins' : Namespace}
    (member : LoadGlobalMember) (hg : globals.Twin (d .keys) globals')
    (hb : builtins.Twin (d .keys) builtins')
    (hw : member ≠ .adaptive → (QuickOp.loadGlobal member).Alike d e v e' v') :
    member.probe e' v' globals' builtins' = member.probe e v globals builtins := by
  cases member with
  | adaptive => rfl
  | mod =>
    obtain ⟨hindex, htokens⟩ := hw nofun
    obtain ⟨⟨-, hfirst⟩, -⟩ := List.forall₂_cons.mp htokens
    simp only [probe]
    rw [hindex, hg.valueAt?_eq]
    exact if_congr (and_congr (iff_of_true hfirst.right hfirst.left) (hg.version.eq_iff hfirst))
      rfl rfl
  | builtin =>
    obtain ⟨hindex, htokens⟩ := hw nofun
    obtain ⟨⟨-, hfirst⟩, hrest⟩ := List.forall₂_cons.mp htokens
    obtain ⟨⟨-, hsecond⟩, -⟩ := List.forall₂_cons.mp hrest
    simp only [probe]
    rw [hindex, hb.valueAt?_eq]
    refine if_congr ?_ rfl rfl
    exact and_congr (iff_of_true hfirst.right hfirst.left)
      (and_congr (iff_of_true hsecond.right hsecond.left)
        (and_congr (hg.version.eq_iff hfirst) (hb.version.eq_iff hsecond)))

lemma LoadAttrMember.probe_twin (member : LoadAttrMember) (ht : h.Twin d h') (receiver : Value)
    (hw : member ≠ .adaptive → (QuickOp.loadAttr member).Alike d e v e' v') :
    member.probe e' v' h' receiver = member.probe e v h receiver := by
  cases member with
  | adaptive => simp [probe]
  | instanceValue =>
    obtain ⟨hindex, htokens⟩ := hw nofun
    obtain ⟨⟨-, hshape⟩, -⟩ := List.forall₂_cons.mp htokens
    simp only [probe, if_neg hshape.left, if_neg hshape.right]
    cases receiver with
    | inst o =>
      simp only [Heap.fieldIfShape?, Heap.fieldAt?]
      rw [hindex, ht.instanceAt]
      exact if_congr ((ht.shapeOf o).id.eq_iff hshape) rfl rfl
    | _ => rfl
  | cls =>
    obtain ⟨hindex, htokens⟩ := hw nofun
    obtain ⟨⟨-, hkeys⟩, hrest⟩ := List.forall₂_cons.mp htokens
    obtain ⟨⟨-, hshape⟩, -⟩ := List.forall₂_cons.mp hrest
    simp only [probe, if_neg hkeys.left, if_neg hkeys.right]
    cases receiver with
    | inst o =>
      dsimp only
      rw [hindex, ht.instanceAt, (ht.attributesOf _).valueAt?_eq]
      refine if_congr ((ht.shapeOf o).id.eq_iff hshape) ?_ rfl
      exact if_congr ((ht.attributesOf _).version.eq_iff hkeys) rfl rfl
    | _ => rfl
  | mod =>
    obtain ⟨hindex, htokens⟩ := hw nofun
    obtain ⟨⟨-, hkeys⟩, -⟩ := List.forall₂_cons.mp htokens
    simp only [probe, if_neg hkeys.left, if_neg hkeys.right]
    cases receiver with
    | mod m =>
      dsimp only
      rw [hindex, (ht.namespaceAt m.id).valueAt?_eq]
      exact if_congr ((ht.namespaceAt m.id).version.eq_iff hkeys) rfl rfl
    | _ => rfl

lemma CallMember.probe_twin (member : CallMember) (ht : h.Twin d h') (callee : Value)
    (harg : e'.arg = e.arg) (hw : member ≠ .adaptive → (QuickOp.call member).Alike d e v e' v') :
    member.probe e' h' callee = member.probe e h callee := by
  cases member with
  | adaptive => rfl
  | functionExact =>
    obtain ⟨-, htokens⟩ := hw nofun
    obtain ⟨⟨-, hversion⟩, -⟩ := List.forall₂_cons.mp htokens
    cases callee with
    | function f =>
      have hf := ht.functionAt f
      simp only [probe]
      rw [hf.unit, ht.unitAt, harg]
      refine if_congr ?_ rfl rfl
      exact and_congr (iff_of_true hversion.right hversion.left)
        (and_congr (hf.version.eq_iff hversion) Iff.rfl)
    | _ => rfl
  | builtin =>
    obtain ⟨-, htokens⟩ := hw nofun
    obtain ⟨⟨-, hid⟩, -⟩ := List.forall₂_cons.mp htokens
    cases callee with
    | builtin b =>
      have hb := ht.builtinAt b
      simp only [probe]
      rw [hb.arity, harg]
      refine if_congr ?_ rfl rfl
      exact and_congr (iff_of_true hid.right hid.left) (and_congr (hb.id.eq_iff hid) Iff.rfl)
    | _ => rfl

variable {t t' : Attempt}

lemma LoadGlobalMember.trial_twin (member : LoadGlobalMember) (holds : Bool) (ht : t.Twin d t') :
    (member.trial holds t).Twin d (member.trial holds t') := by
  unfold trial
  split
  · exact .adaptive ht
  · exact .guarded holds

lemma LoadAttrMember.trial_twin (member : LoadAttrMember) (holds : Bool) (ht : t.Twin d t') :
    (member.trial holds t).Twin d (member.trial holds t') := by
  unfold trial
  split
  · exact .adaptive ht
  · exact .guarded holds

lemma CallMember.trial_twin (member : CallMember) (holds : Bool) (ht : t.Twin d t') :
    (member.trial holds t).Twin d (member.trial holds t') := by
  unfold trial
  split
  · exact .adaptive ht
  · exact .guarded holds

lemma BinaryAddMember.trial_twin (member : BinaryAddMember) (holds : Bool) (ht : t.Twin d t') :
    (member.trial holds t).Twin d (member.trial holds t') := by
  unfold trial
  split
  · exact .adaptive ht
  · exact .guarded holds

end Guards

/-! ### Machines -/

/-- Machines in the same state, on twin worlds. -/
inductive Machine.Twin (d : TokenKind → ℤ) : Machine → Machine → Prop where
  | mk {h h' : Heap} {a a' : Array Attachment} (heap : h.Twin d h')
      (attachments : Paired (Attachment.Twin d) a a') (vm : Vm) (frames : List Frame) :
      Twin d ⟨h, a, vm, frames⟩ ⟨h', a', vm, frames⟩

/-- The same way of going on, on twin worlds. -/
inductive Progress.Twin (d : TokenKind → ℤ) : Progress → Progress → Prop where
  | running {m m' : Machine} (machine : m.Twin d m') : Twin d (.running m) (.running m')
  | returned {m m' : Machine} (machine : m.Twin d m') (v : Value) :
      Twin d (.returned m v) (.returned m' v)
  | failed {m m' : Machine} (machine : m.Twin d m') (e : Error) :
      Twin d (.failed m e) (.failed m' e)

lemma Frame.effect_twin {d : TokenKind → ℤ} {h h' : Heap} (ht : h.Twin d h') (f : Frame)
    (builtins : Ref .mod) (u : CodeUnit) (op : Opcode) (arg : UInt8) :
    f.effect h' builtins u op arg = f.effect h builtins u op arg := by
  cases op with
  | loadGlobal =>
    simp only [effect, ht.loadGlobal]
  | loadAttr =>
    simp only [effect, ht.loadAttr]
  | _ => rfl

namespace Machine

variable {d : TokenKind → ℤ} {h h' : Heap} {a a' : Array Attachment} {m m' : Machine}

lemma deliver_twin (hm : m.Twin d m') (v : Value) : (m.deliver v).Twin d (m'.deliver v) := by
  obtain @⟨h, h', a, a', hh, ha, vm, frames⟩ := hm
  rcases frames with _ | ⟨f, rest⟩
  · exact .returned (.mk hh ha vm []) v
  · exact .running (.mk hh ha vm _)

lemma fail_twin (hm : m.Twin d m') (e : Error) : (m.fail e).Twin d (m'.fail e) := by
  obtain @⟨h, h', a, a', hh, ha, vm, frames⟩ := hm
  have htrace : Frame.traceFrame h' = Frame.traceFrame h := by
    funext f
    rw [Frame.traceFrame, hh.unitAt, Frame.traceFrame]
  simp only [fail, htrace]
  exact .failed (.mk hh ha _ []) _

lemma settle_twin (hm : m.Twin d m') (r : Except Fault Value) :
    (m.settle r).Twin d (m'.settle r) := by
  cases r with
  | ok v => exact deliver_twin hm v
  | error cause => exact fail_twin hm _

lemma answer_twin (hm : m.Twin d m') (b : Ref .builtin) (r : Except Error Value) :
    (m.answer b r).Twin d (m'.answer b r) := by
  cases r with
  | ok v => exact deliver_twin hm v
  | error e => exact fail_twin hm _

/-! ### Calls -/

lemma perform_twin (hm : m.Twin d m') (b : Ref .builtin) (args : List Value) :
    (m.perform b args).Twin d (m'.perform b args) := by
  obtain @⟨h, h', a, a', hh, ha, vm, frames⟩ := hm
  obtain ⟨hr, hheap⟩ := hh.perform (h.builtinAt b).procedure args
  simp only [perform]
  rw [(hh.builtinAt b).procedure, hr]
  exact answer_twin (.mk hheap ha vm frames) b _

lemma callBuiltin_twin (hm : m.Twin d m') (b : Ref .builtin) (args : List Value) :
    (m.callBuiltin b args).Twin d (m'.callBuiltin b args) := by
  obtain @⟨h, h', a, a', hh, ha, vm, frames⟩ := hm
  obtain ⟨hr, hheap⟩ := hh.invoke b args
  simp only [callBuiltin]
  rw [hr]
  exact answer_twin (.mk hheap ha vm frames) b _

lemma construct_twin (hm : m.Twin d m') (c : Ref .cls) :
    (m.construct c).Twin d (m'.construct c) := by
  obtain @⟨h, h', a, a', hh, ha, vm, frames⟩ := hm
  obtain ⟨hr, hheap⟩ := hh.instantiate c
  simp only [construct]
  rw [hr]
  exact deliver_twin (.mk hheap ha vm frames) _

/-- A warm-up tick does the same to twins. -/
lemma warmUp_twin (hh : h.Twin d h') (ha : Paired (Attachment.Twin d) a a') (vm : Vm) (u : Nat) :
    (warmUp h' a' vm u).1 = (warmUp h a vm u).1 ∧
      Paired (Attachment.Twin d) (warmUp h a vm u).2.1 (warmUp h' a' vm u).2.1 ∧
      (warmUp h' a' vm u).2.2 = (warmUp h a vm u).2.2 := by
  have hat := ha.each u
  have hticked := ha.modify u hat.tick
  have hwarm := hticked.each u
  unfold warmUp
  rw [hat.isSome_quickened, hh.unitAt]
  dsimp only
  rw [hwarm.warmup]
  split
  · exact ⟨rfl, ha, rfl⟩
  · split
    · exact ⟨rfl, ha, rfl⟩
    · split
      · exact ⟨rfl, hticked, rfl⟩
      · unfold Quickened.quicken
        dsimp only
        split
        · next q hq =>
          split at hq
          · cases hq
          · cases hq
            have hnew := hticked.modify u (f := (·.install _)) (g := (·.install _))
              (hwarm.install (h.unitAt u).instrs)
            exact ⟨rfl, hnew, rfl⟩
        · exact ⟨rfl, hticked.modify u hwarm.cool, rfl⟩

lemma enter_twin (hm : m.Twin d m') (u : Nat) (globals : Ref .mod)
    (locals : Array (Option Value)) :
    (m.enter u globals locals).Twin d (m'.enter u globals locals) := by
  obtain @⟨h, h', a, a', hh, ha, vm, frames⟩ := hm
  by_cases hd : vm.config.maxFrameDepth ≤ vm.depth
  · rw [enter_of_le hd, enter_of_le (m := ⟨h', a', vm, frames⟩) hd]
    exact fail_twin (.mk hh ha vm frames) _
  · obtain ⟨hr, hatt, hvm⟩ := warmUp_twin hh ha vm u
    rcases hw : warmUp h a vm u with ⟨quick | e, a₁, vm₁⟩
    all_goals
      rcases hw' : warmUp h' a' vm u with ⟨r', a₁', vm₁'⟩
      rw [hw, hw'] at hr hatt hvm
      cases hr
      cases hvm
    · rw [enter_of_error (m := ⟨h, a, vm, frames⟩) hd hw,
        enter_of_error (m := ⟨h', a', vm, frames⟩) hd hw']
      exact fail_twin (.mk hh hatt _ frames) _
    · rw [enter_of_ok (m := ⟨h, a, vm, frames⟩) hd hw,
        enter_of_ok (m := ⟨h', a', vm, frames⟩) hd hw']
      exact .running (.mk hh hatt _ _)

lemma enterExact_twin (hm : m.Twin d m') (f : Ref .function) (args : List Value) :
    (m.enterExact f args).Twin d (m'.enterExact f args) := by
  obtain @⟨h, h', a, a', hh, ha, vm, frames⟩ := hm
  have hf := hh.functionAt f
  simp only [enterExact]
  rw [hf.unit, hf.globals, hh.unitAt]
  exact enter_twin (.mk hh ha vm frames) _ _ _

lemma call_twin (hm : m.Twin d m') (callee : Value) (args : List Value) :
    (m.call callee args).Twin d (m'.call callee args) := by
  cases callee with
  | function f =>
    obtain @⟨h, h', a, a', hh, ha, vm, frames⟩ := hm
    have hf := hh.functionAt f
    simp only [call]
    rw [hf.unit, hf.globals, hf.defaults, hh.unitAt]
    split
    · exact enter_twin (.mk hh ha vm frames) _ _ _
    · exact fail_twin (.mk hh ha vm frames) _
  | builtin b => exact callBuiltin_twin hm b args
  | cls c =>
    simp only [call]
    split
    · exact construct_twin hm c
    · exact fail_twin hm _
  | _ => exact fail_twin hm _

/-! ### Static instructions -/

lemma jump_twin (hh : h.Twin d h') (ha : Paired (Attachment.Twin d) a a') (vm : Vm) (f : Frame)
    (rest : List Frame) (target : Nat) :
    (jump h a vm f rest target).Twin d (jump h' a' vm f rest target) := by
  unfold jump
  split
  · obtain ⟨hr, hatt, hvm⟩ := warmUp_twin hh ha vm f.unit
    rcases hw : warmUp h a vm f.unit with ⟨quick | e, a₁, vm₁⟩
    all_goals
      rcases hw' : warmUp h' a' vm f.unit with ⟨r', a₁', vm₁'⟩
      rw [hw, hw'] at hr hatt hvm
      cases hr
      cases hvm
    · exact fail_twin (.mk hh hatt _ _) _
    · exact .running (.mk hh hatt _ _)
  · exact .running (.mk hh ha vm _)

/-- An effect may use up a source. -/
lemma carryOut_twin (hh : h.Twin d h') (ha : Paired (Attachment.Twin d) a a') (vm : Vm)
    (rest : List Frame) (e : Effect)
    (hl : (carryOut h a vm rest e).machine.heap.tokens.Lasting)
    (hl' : (carryOut h' a' vm rest e).machine.heap.tokens.Lasting) :
    (carryOut h a vm rest e).Twin d (carryOut h' a' vm rest e) := by
  cases e with
  | next f => exact .running (.mk hh ha vm _)
  | jump f target => exact jump_twin hh ha vm f rest target
  | assign f key value => exact .running (.mk (hh.assign _ key value hl hl') ha vm _)
  | store f receiver key value =>
    exact .running (.mk (hh.putAttr receiver key value hl hl') ha vm _)
  | call f callee args => exact call_twin (.mk hh ha vm _) callee args
  | leave v => exact deliver_twin (.mk hh ha _ rest) v

lemma stepPlain_twin (hh : h.Twin d h') (ha : Paired (Attachment.Twin d) a a') (vm : Vm)
    (f : Frame) (rest : List Frame) (u : CodeUnit) (op : Opcode) (arg : UInt8)
    (hl : (stepPlain h a vm f rest u op arg).machine.heap.tokens.Lasting)
    (hl' : (stepPlain h' a' vm f rest u op arg).machine.heap.tokens.Lasting) :
    (stepPlain h a vm f rest u op arg).Twin d (stepPlain h' a' vm f rest u op arg) := by
  unfold stepPlain at hl hl' ⊢
  rw [Frame.effect_twin hh] at hl' ⊢
  rcases he : f.effect h vm.builtins u op arg with e | effect
  · exact fail_twin (.mk hh ha vm _) e
  · rw [he] at hl hl'
    exact carryOut_twin hh ha vm rest effect hl hl'

/-! ### Sites -/

variable {q : Quickened} {f : Frame} {fam : Family} {t t' : Trial}

/-- An execution of a site leaves attachments twins, and the same counts. -/
lemma visit_twin (ha : Paired (Attachment.Twin d) a a') (vm : Vm) {u p : Nat}
    (hq : (a.getD u default).quickened = some q) (hlaid : q.Laid)
    (hf : (q.instrAt p).op.family? = some fam) (ht : t.Twin d t')
    (hfit : t.Fits (q.instrAt p).op fam) (hfit' : t'.Fits (q.instrAt p).op fam) :
    Paired (Attachment.Twin d) (visit a vm u p fam t).1 (visit a' vm u p fam t').1 ∧
      (visit a' vm u p fam t').2 = (visit a vm u p fam t).2 := by
  obtain ⟨q', hq', hstream⟩ := (ha.each u).exists_stream hq
  have hcounter : counterAt a' u p = counterAt a u p := by
    rw [counterAt, hq', counterAt, hq]
    exact hstream.counter p
  have hev := ht.event vm.config (counterAt a u p)
  have hadaptive : (t.event vm.config (counterAt a u p)).attempt? ≠ none →
      (q.instrAt p).op.isAdaptive = true := by
    intro hattempt
    cases ht with
    | adaptive => exact hfit.1
    | guarded holds =>
      refine absurd ?_ hattempt
      rcases Trial.event_guarded_cases vm.config (counterAt a u p) holds with
        ⟨-, he⟩ | ⟨-, -, he⟩ | ⟨-, -, he⟩
      all_goals rw [he]; rfl
  unfold visit
  rw [hcounter]
  have hnew : Attachment.Twin d
      ((a.getD u default).apply p fam (t.event vm.config (counterAt a u p)))
      ((a'.getD u default).apply p fam (t'.event vm.config (counterAt a u p))) := by
    refine ⟨(ha.each u).warmup, ?_⟩
    simp only [Attachment.apply, hq, hq', Option.map_some]
    exact .some
      (hstream.apply hlaid hf (Trial.event_fits hfit) (Trial.event_fits hfit') hev hadaptive)
  exact ⟨ha.modify u (f := (·.apply p fam _)) (g := (·.apply p fam _)) hnew, hev.record vm fam⟩

section Members

variable (hh : h.Twin d h') (ha : Paired (Attachment.Twin d) a a') (vm : Vm) (rest : List Frame)
  (u : CodeUnit) (hq : (a.getD f.unit default).quickened = some q) (hlaid : q.Laid)
  {e e' : Entry} {v v' : VersionPair} (harg : e'.arg = e.arg)

include hh ha hq hlaid harg

lemma stepLoadGlobal_twin {member : LoadGlobalMember}
    (hop : (q.instrAt f.position).op = .loadGlobal member)
    (hw : member ≠ .adaptive → (QuickOp.loadGlobal member).Alike d e v e' v') :
    (stepLoadGlobal h a vm f rest u member e v).Twin d
      (stepLoadGlobal h' a' vm f rest u member e' v') := by
  have hg := hh.namespaceAt f.globals.id
  have hb := hh.namespaceAt vm.builtins.id
  unfold stepLoadGlobal
  rw [harg]
  rcases u.name? e.arg with _ | key
  · exact fail_twin (.mk hh ha vm _) _
  dsimp only
  rw [member.probe_twin hg hb hw, hh.loadGlobal]
  generalize member.probe e v (h.namespaceAt f.globals.id) (h.namespaceAt vm.builtins.id) = found
  obtain ⟨hatt, hvm⟩ := visit_twin ha vm hq hlaid (by rw [hop]; rfl)
    (member.trial_twin found.isSome (Specialize.loadGlobal_twin hg hb key))
    (by rw [hop]; exact Trial.loadGlobal_fits member _ (Specialize.loadGlobal_fits ..))
    (by rw [hop]; exact Trial.loadGlobal_fits member _ (Specialize.loadGlobal_fits ..))
  rw [hvm]
  rcases found with _ | value
  · exact settle_twin (.mk hh hatt _ _) _
  · exact deliver_twin (.mk hh hatt _ _) value

lemma stepLoadAttr_twin {member : LoadAttrMember}
    (hop : (q.instrAt f.position).op = .loadAttr member)
    (hw : member ≠ .adaptive → (QuickOp.loadAttr member).Alike d e v e' v') :
    (stepLoadAttr h a vm f rest u member e v).Twin d
      (stepLoadAttr h' a' vm f rest u member e' v') := by
  unfold stepLoadAttr
  rw [harg]
  rcases f.stack with _ | ⟨receiver, below⟩
  · exact fail_twin (.mk hh ha vm _) _
  dsimp only
  rcases u.name? e.arg with _ | key
  · exact fail_twin (.mk hh ha vm _) _
  dsimp only
  rw [member.probe_twin hh receiver hw, hh.loadAttr]
  generalize member.probe e v h receiver = found
  obtain ⟨hatt, hvm⟩ := visit_twin ha vm hq hlaid (by rw [hop]; rfl)
    (member.trial_twin found.isSome (Specialize.loadAttr_twin hh receiver key))
    (by rw [hop]; exact Trial.loadAttr_fits member _ (Specialize.loadAttr_fits ..))
    (by rw [hop]; exact Trial.loadAttr_fits member _ (Specialize.loadAttr_fits ..))
  rw [hvm]
  rcases found with _ | value
  · exact settle_twin (.mk hh hatt _ _) _
  · exact deliver_twin (.mk hh hatt _ _) value

lemma stepCall_twin {member : CallMember} (hop : (q.instrAt f.position).op = .call member)
    (hw : member ≠ .adaptive → (QuickOp.call member).Alike d e v e' v') :
    (stepCall h a vm f rest u member e).Twin d (stepCall h' a' vm f rest u member e') := by
  unfold stepCall
  rw [harg]
  rcases f.popMany? e.arg.toNat with _ | ⟨args, _ | ⟨callee, below⟩⟩
  · exact fail_twin (.mk hh ha vm _) _
  · exact fail_twin (.mk hh ha vm _) _
  dsimp only
  rw [member.probe_twin hh callee harg hw]
  generalize member.probe e h callee = found
  obtain ⟨hatt, hvm⟩ := visit_twin ha vm hq hlaid (by rw [hop]; rfl)
    (member.trial_twin found.isSome (Specialize.call_twin hh callee e.arg))
    (by rw [hop]; exact Trial.call_fits member _ (Specialize.call_fits ..))
    (by rw [hop]; exact Trial.call_fits member _ (Specialize.call_fits ..))
  rw [hvm]
  rcases found with _ | fn | b
  · exact call_twin (.mk hh hatt _ _) callee args
  · exact enterExact_twin (.mk hh hatt _ _) fn args
  · exact perform_twin (.mk hh hatt _ _) b args

omit harg in
lemma stepBinaryAdd_twin {member : BinaryAddMember}
    (hop : (q.instrAt f.position).op = .binaryAdd member) :
    (stepBinaryAdd h a vm f rest u member).Twin d (stepBinaryAdd h' a' vm f rest u member) := by
  unfold stepBinaryAdd
  rcases f.stack with _ | ⟨right, _ | ⟨left, below⟩⟩
  · exact fail_twin (.mk hh ha vm _) _
  · exact fail_twin (.mk hh ha vm _) _
  dsimp only
  obtain ⟨hatt, hvm⟩ := visit_twin ha vm hq hlaid (by rw [hop]; rfl)
    (member.trial_twin (member.probe left right).isSome (Specialize.binaryAdd_twin d left right))
    (by rw [hop]; exact Trial.binaryAdd_fits member _ (Specialize.binaryAdd_fits ..))
    (by rw [hop]; exact Trial.binaryAdd_fits member _ (Specialize.binaryAdd_fits ..))
  rw [hvm]
  exact settle_twin (.mk hh hatt _ _) _

end Members

/-! ### Steps -/

lemma fetch_twin (ha : Paired (Attachment.Twin d) a a') (f : Frame) (i : Instr) :
    fetch a' f i = fetch a f i := by
  by_cases hstatic : f.quick = false ∨ (a.getD f.unit default).quickened = none
  · have hstatic' : f.quick = false ∨ (a'.getD f.unit default).quickened = none := by
      refine hstatic.imp_right fun hnone => ?_
      rw [← Option.isNone_iff_eq_none, ← Option.not_isSome,
        (ha.each f.unit).isSome_quickened, hnone]
      rfl
    rw [fetch_of_static hstatic, fetch_of_static hstatic']
  · obtain ⟨hquick, hsome⟩ := not_or.mp hstatic
    obtain ⟨q, hq⟩ := Option.ne_none_iff_exists'.mp hsome
    obtain ⟨q', hq', hstream⟩ := (ha.each f.unit).exists_stream hq
    rw [fetch_of_quick (by simpa using hquick) hq, fetch_of_quick (by simpa using hquick) hq',
      hstream.instrAt]

/-- A member of a quickened stream. -/
lemma execute_twin (hh : h.Twin d h') (ha : Paired (Attachment.Twin d) a a') (vm : Vm)
    (rest : List Frame) (u : CodeUnit) (hquick : f.quick = true)
    (hq : (a.getD f.unit default).quickened = some q) (hlaid : q.Laid)
    (hfam : (q.instrAt f.position).op.family? = some fam) :
    (execute h a vm f rest u (q.instrAt f.position)).Twin d
      (execute h' a' vm f rest u (q.instrAt f.position)) := by
  obtain ⟨q', hq', hstream⟩ := (ha.each f.unit).exists_stream hq
  rw [execute_site (wordsAt?_of_quick hquick hq), execute_site (wordsAt?_of_quick hquick hq')]
  have hown (hpos : 0 < fam.entries) : q.hasEntries f.position = true := by
    rw [Quickened.hasEntries_of_family hfam, decide_eq_true hpos]
  have hguards := hstream.guards f.position
  rcases hop : (q.instrAt f.position).op with op | member | member | member | member
  · rw [hop] at hfam
    cases hfam
  · rw [hop] at hfam hguards
    cases hfam
    refine stepLoadGlobal_twin hh ha vm rest u hq hlaid (hstream.arg _ (hown (by decide))) hop
      fun hne => hguards (hown (by decide)) ?_
    cases member <;> first | rfl | exact absurd rfl hne
  · rw [hop] at hfam hguards
    cases hfam
    refine stepLoadAttr_twin hh ha vm rest u hq hlaid (hstream.arg _ (hown (by decide))) hop
      fun hne => hguards (hown (by decide)) ?_
    cases member <;> first | rfl | exact absurd rfl hne
  · rw [hop] at hfam hguards
    cases hfam
    refine stepCall_twin hh ha vm rest u hq hlaid (hstream.arg _ (hown (by decide))) hop
      fun hne => hguards (hown (by decide)) ?_
    cases member <;> first | rfl | exact absurd rfl hne
  · exact stepBinaryAdd_twin hh ha vm rest u hq hlaid hop

/-- **Twins keep in step**, as long as their sources last. -/
theorem step_twin (hm : m.Twin d m') (hw : World.Sound ⟨m.heap, m.attachments⟩)
    (hl : m.step.machine.heap.tokens.Lasting) (hl' : m'.step.machine.heap.tokens.Lasting) :
    m.step.Twin d m'.step := by
  obtain @⟨h, h', a, a', hh, ha, vm, frames⟩ := hm
  rcases frames with _ | ⟨f, rest⟩
  · exact .returned (.mk hh ha vm []) .none
  rcases hi : (h.unitAt f.unit).instr? f.position with _ | i
  · have hi' : (h'.unitAt f.unit).instr? f.position = none := by rw [hh.unitAt, hi]
    rw [step_of_none hi, step_of_none hi']
    exact deliver_twin (.mk hh ha _ rest) .none
  have hi' : (h'.unitAt f.unit).instr? f.position = some i := by rw [hh.unitAt, hi]
  rw [step_of_some hi] at hl ⊢
  rw [step_of_some hi', hh.unitAt, fetch_twin ha] at hl' ⊢
  by_cases hstatic : f.quick = false ∨ (a.getD f.unit default).quickened = none
  · rw [fetch_of_static hstatic, execute_plain] at hl hl' ⊢
    exact stepPlain_twin hh ha _ f rest _ i.op i.arg hl hl'
  · obtain ⟨hquick, hsome⟩ := not_or.mp hstatic
    obtain ⟨q, hq⟩ := Option.ne_none_iff_exists'.mp hsome
    have hsound : q.Sound h (h.unitAt f.unit) := hw.streams f.unit q hq
    have hquick : f.quick = true := by simpa using hquick
    rw [fetch_of_quick hquick hq] at hl hl' ⊢
    rcases hsound.erases.instrAt_cases hi with hp | ⟨fam, -, hfam⟩
    · rw [hp, execute_plain] at hl hl' ⊢
      exact stepPlain_twin hh ha _ f rest _ i.op i.arg hl hl'
    · exact execute_twin hh ha _ rest _ hquick hq hsound.erases.laid hfam

end Machine

end AdaptiveVM
