import AdaptiveVM.Proofs.Execution

/-!
What a specialized site knows.

A guard compares tokens, and its member acts on what the tokens stood for when they were written
down. Since a token means the same for good, what is known of it holds in every later heap, of all
objects that carry it. A member is trusted when the tokens in its words are known to say what the
member relies on; an attempt writes only such words, and no other event writes any.
-/

namespace AdaptiveVM

namespace Heap

/-! ### What tokens say -/

/-- Namespaces with the keys version have the name in the slot, or do not have it. -/
structure KeysTell (h : Heap) (t : Token) (key : String) (slot : Option Nat) : Prop where
  issued : h.tokens.keys.Issued t
  tells : ∀ n, h.keysToken n = t → (h.namespaceAt n).indexOf? key = slot

/-- Shapes with the token have the field at the position, or do not have it. -/
structure ShapeTells (h : Heap) (t : Token) (key : String) (slot : Option Nat) : Prop where
  issued : h.tokens.shapes.Issued t
  tells : ∀ s, h.shapeToken s = t → (h.shapeAt s).indexOf? key = slot

/-- Functions with the version take that many arguments. -/
structure FunctionTells (h : Heap) (t : Token) (argc : UInt8) : Prop where
  issued : h.tokens.functions.Issued t
  tells : ∀ i, h.functionToken i = t →
    (h.unitAt (h.functions.getD i default).unit).argcount = argc

/-- Builtins with the identity take that many arguments. -/
structure BuiltinTells (h : Heap) (t : Token) (argc : UInt8) : Prop where
  issued : h.tokens.builtins.Issued t
  tells : ∀ i, h.builtinToken i = t → (h.builtins.getD i default).arity = some argc

variable {h h' : Heap} {t : Token} {key : String} {slot : Option Nat} {argc : UInt8}

/-! ### Learning it -/

lemma Versioned.keysTell (hv : h.Versioned) {n : Nat} (hn : h.keysToken n ≠ 0)
    (hi : (h.namespaceAt n).indexOf? key = slot) : h.KeysTell (h.keysToken n) key slot where
  issued := hv.keys.issued n hn
  tells n' hn' := by
    have heq : n' = n := hv.keys.inj n' n hn' (by rw [hn']; exact hn)
    rw [heq, hi]

lemma Versioned.shapeTells (hv : h.Versioned) {s : Nat} (hs : h.shapeToken s ≠ 0)
    (hi : (h.shapeAt s).indexOf? key = slot) : h.ShapeTells (h.shapeToken s) key slot where
  issued := hv.shapes.issued s hs
  tells s' hs' := by
    have heq : s' = s := hv.shapes.inj s' s hs' (by rw [hs']; exact hs)
    rw [heq, hi]

lemma Versioned.functionTells (hv : h.Versioned) {i : Nat} (hi : h.functionToken i ≠ 0) :
    h.FunctionTells (h.functionToken i) (h.unitAt (h.functions.getD i default).unit).argcount where
  issued := hv.functions.issued i hi
  tells i' hi' := by
    have heq : i' = i := hv.functions.inj i' i hi' (by rw [hi']; exact hi)
    rw [heq]

lemma Versioned.builtinTells (hv : h.Versioned) {i : Nat} (hi : h.builtinToken i ≠ 0)
    (ha : (h.builtins.getD i default).arity = some argc) :
    h.BuiltinTells (h.builtinToken i) argc where
  issued := hv.builtins.issued i hi
  tells i' hi' := by
    have heq : i' = i := hv.builtins.inj i' i hi' (by rw [hi']; exact hi)
    rw [heq, ha]

/-! ### Keeping it -/

lemma KeysTell.later (hk : h.KeysTell t key slot) (hl : Later h h') : h'.KeysTell t key slot where
  issued := hl.keysIssued t hk.issued
  tells n hn := by
    obtain ⟨hsame, hkeys⟩ := hl.keys n (by rw [hn]; exact hk.issued)
    rw [hkeys]
    exact hk.tells n (hsame.trans hn)

lemma ShapeTells.later (hk : h.ShapeTells t key slot) (hl : Later h h') :
    h'.ShapeTells t key slot where
  issued := hl.shapesIssued t hk.issued
  tells s hs := by
    obtain ⟨hsame, hkeys⟩ := hl.shapes s (by rw [hs]; exact hk.issued)
    rw [Shape.indexOf?, hkeys]
    exact hk.tells s (hsame.trans hs)

lemma FunctionTells.later (hv : h.Versioned) (hk : h.FunctionTells t argc) (hl : Later h h') :
    h'.FunctionTells t argc where
  issued := hl.functionsIssued t hk.issued
  tells i hi := by
    have hsame := hl.functions i (by rw [hi]; exact hk.issued)
    have htoken : h.functionToken i = t := by rw [functionToken, ← hsame]; exact hi
    have hlt : i < h.functions.size := by
      -- a function that is not there has no version
      by_contra hc
      refine hk.issued.1 (htoken.symm.trans ?_)
      rw [functionToken, getD_of_size_le (by omega)]
      rfl
    rw [hsame, hl.units _ (hv.code i hlt)]
    exact hk.tells i htoken

lemma BuiltinTells.later (hk : h.BuiltinTells t argc) (hl : Later h h') :
    h'.BuiltinTells t argc where
  issued := hl.builtinsIssued t hk.issued
  tells i hi := by
    have hsame := hl.builtins i (by rw [hi]; exact hk.issued)
    rw [hsame]
    exact hk.tells i (by rw [builtinToken, ← hsame]; exact hi)

end Heap

/-! ### What members rely on -/

/-- The words of a site say what a member for a global relies on. -/
def LoadGlobalMember.Trusted (h : Heap) (key : String) (e : Entry) (v : VersionPair) :
    LoadGlobalMember → Prop
  | .adaptive => True
  | .mod => h.KeysTell v.first key (some e.index.toNat)
  | .builtin => h.KeysTell v.first key none ∧ h.KeysTell v.second key (some e.index.toNat)

/-- The words of a site say what a member for an attribute relies on. -/
def LoadAttrMember.Trusted (h : Heap) (key : String) (e : Entry) (v : VersionPair) :
    LoadAttrMember → Prop
  | .adaptive => True
  | .instanceValue => h.ShapeTells e.version key (some e.index.toNat)
  | .cls => h.ShapeTells v.first key none ∧ h.KeysTell e.version key (some e.index.toNat)
  | .mod => h.KeysTell e.version key (some e.index.toNat)

/-- The words of a site say what a member for a call relies on. -/
def CallMember.Trusted (h : Heap) (e : Entry) : CallMember → Prop
  | .adaptive => True
  | .functionExact => h.FunctionTells e.version e.arg
  | .builtin => h.BuiltinTells e.version e.arg

/-- The words of a site of a unit say what its member relies on. -/
def QuickOp.Trusted (h : Heap) (u : CodeUnit) (e : Entry) (v : VersionPair) : QuickOp → Prop
  | .plain _ => True
  | .loadGlobal member => ∀ key, u.name? e.arg = some key → member.Trusted h key e v
  | .loadAttr member => ∀ key, u.name? e.arg = some key → member.Trusted h key e v
  | .call member => member.Trusted h e
  | .binaryAdd _ => True

variable {h h' : Heap} {u : CodeUnit} {e : Entry} {v : VersionPair} {op : QuickOp}

lemma QuickOp.Trusted.later (hv : h.Versioned) (ht : op.Trusted h u e v)
    (hl : Heap.Later h h') : op.Trusted h' u e v := by
  cases op with
  | plain op => trivial
  | loadGlobal member =>
    intro key hkey
    have ht := ht key hkey
    cases member with
    | adaptive => trivial
    | mod => exact Heap.KeysTell.later ht hl
    | builtin => exact ⟨ht.1.later hl, ht.2.later hl⟩
  | loadAttr member =>
    intro key hkey
    have ht := ht key hkey
    cases member with
    | adaptive => trivial
    | instanceValue => exact Heap.ShapeTells.later ht hl
    | cls => exact ⟨ht.1.later hl, ht.2.later hl⟩
    | mod => exact Heap.KeysTell.later ht hl
  | call member =>
    cases member with
    | adaptive => trivial
    | functionExact => exact Heap.FunctionTells.later hv ht hl
    | builtin => exact Heap.BuiltinTells.later ht hl
  | binaryAdd member => trivial

lemma QuickOp.trusted_of_isAdaptive (ha : op.isAdaptive = true) : op.Trusted h u e v := by
  cases op with
  | plain op => trivial
  | loadGlobal member =>
    cases member with
    | adaptive => exact fun _ _ => trivial
    | mod => cases ha
    | builtin => cases ha
  | loadAttr member =>
    cases member with
    | adaptive => exact fun _ _ => trivial
    | instanceValue => cases ha
    | cls => cases ha
    | mod => cases ha
  | call member =>
    cases member with
    | adaptive => trivial
    | functionExact => cases ha
    | builtin => cases ha
  | binaryAdd member => trivial

/-- The counter says nothing about tokens. -/
lemma QuickOp.trusted_counter (n : UInt8) :
    op.Trusted h u { e with counter := n } v ↔ op.Trusted h u e v := by
  cases op with
  | plain op => exact Iff.rfl
  | loadGlobal member => cases member <;> exact Iff.rfl
  | loadAttr member => cases member <;> exact Iff.rfl
  | call member => cases member <;> exact Iff.rfl
  | binaryAdd member => exact Iff.rfl

/-! ### What attempts write -/

/-- The member an attempt comes to is trusted with the words the attempt writes. -/
def Attempt.Trusted (t : Attempt) (h : Heap) (u : CodeUnit) (e : Entry) (v : VersionPair) : Prop :=
  ∀ op, t.verdict = .ok op → op.Trusted h u (t.entry e) (t.pair v)

lemma Attempt.refuse_trusted (reason : Refusal) : (Attempt.refuse reason).Trusted h u e v :=
  fun _ hv => by cases hv

namespace Specialize

variable {key : String}

lemma loadGlobal_trusted (hv : h.Versioned) (globals builtins : Nat)
    (hkey : u.name? e.arg = some key) (v : VersionPair) :
    (loadGlobal (h.namespaceAt globals) (h.namespaceAt builtins) key).Trusted h u e v := by
  rcases loadGlobal_cases (h.namespaceAt globals) (h.namespaceAt builtins) key with
    ⟨reason, he⟩ | ⟨index, hg, hi, he⟩ | ⟨index, hg, hb, hi, hi', he⟩
  · rw [he]
    exact Attempt.refuse_trusted _
  · rw [he]
    rintro op ⟨⟩ key' hkey'
    cases hkey.symm.trans hkey'
    exact hv.keysTell hg hi
  · rw [he]
    rintro op ⟨⟩ key' hkey'
    cases hkey.symm.trans hkey'
    exact ⟨hv.keysTell hg hi, hv.keysTell hb hi'⟩

lemma loadAttr_trusted (hv : h.Versioned) (receiver : Value)
    (hkey : u.name? e.arg = some key) (v : VersionPair) :
    (loadAttr h receiver key).Trusted h u e v := by
  unfold loadAttr
  split
  · next o =>
    split
    · next i hi =>
      rcases instanceValue_cases (h.shapeOf o).id i with ⟨reason, he⟩ | ⟨index, rfl, hs, he⟩
      · rw [he]
        exact Attempt.refuse_trusted _
      · rw [he]
        rintro op ⟨⟩ key' hkey'
        cases hkey.symm.trans hkey'
        exact hv.shapeTells hs hi
    · next hi =>
      rcases classAttribute_cases (h.shapeOf o).id (h.attributesOf (h.instanceAt o).cls) key with
        ⟨reason, he⟩ | ⟨guard, -, he⟩ | ⟨index, hs, ha, hi', he⟩
      · rw [he]
        exact Attempt.refuse_trusted _
      · rw [he]
        exact fun _ hv => by cases hv
      · rw [he]
        rintro op ⟨⟩ key' hkey'
        cases hkey.symm.trans hkey'
        exact ⟨hv.shapeTells hs hi, hv.keysTell ha hi'⟩
  · next m =>
    rcases moduleAttribute_cases (h.namespaceAt m.id) key with ⟨reason, he⟩ | ⟨index, hn, hi, he⟩
    · rw [he]
      exact Attempt.refuse_trusted _
    · rw [he]
      rintro op ⟨⟩ key' hkey'
      cases hkey.symm.trans hkey'
      exact hv.keysTell hn hi
  · exact Attempt.refuse_trusted _

lemma call_trusted (hv : h.Versioned) (target : Value) (e : Entry) (v : VersionPair) :
    (call h target e.arg).Trusted h u e v := by
  rcases call_cases h target e.arg with
    ⟨reason, he⟩ | ⟨f, -, hf, ha, he⟩ | ⟨b, -, hb, ha, he⟩
  · rw [he]
    exact Attempt.refuse_trusted _
  · rw [he]
    rintro op ⟨⟩
    have htells := hv.functionTells hf
    rw [show (h.unitAt (h.functions.getD f.id default).unit).argcount = e.arg from ha] at htells
    exact htells
  · rw [he]
    rintro op ⟨⟩
    exact hv.builtinTells hb ha

end Specialize

namespace Machine

variable {q : Quickened} {p : Nat} {fam : Family} {t : Trial}

/-- What an adaptive site finds, it may be trusted with. -/
lemma Finds.attempt_trusted (hv : h.Versioned) {attempt : Attempt}
    (hf : Finds h u q p fam (.adaptive attempt)) :
    attempt.Trusted h u (q.entryAt p) (q.versionsAt p) := by
  generalize ht : Trial.adaptive attempt = t at hf
  cases hf with
  | @loadGlobal member key globals builtins holds op name =>
    cases member with
    | adaptive => cases ht; exact Specialize.loadGlobal_trusted hv _ _ name _
    | mod => cases ht
    | builtin => cases ht
  | @loadAttr member key receiver holds op name =>
    cases member with
    | adaptive => cases ht; exact Specialize.loadAttr_trusted hv _ name _
    | instanceValue => cases ht
    | cls => cases ht
    | mod => cases ht
  | @call member callee holds op =>
    cases member with
    | adaptive => cases ht; exact Specialize.call_trusted hv _ _ _
    | functionExact => cases ht
    | builtin => cases ht
  | @binaryAdd member left right holds op =>
    cases member with
    | adaptive =>
      cases ht
      rintro op hop
      rcases Specialize.binaryAdd_cases left right with ⟨reason, he⟩ | ⟨member, -, he⟩
      · rw [he] at hop
        cases hop
      · rw [he] at hop
        cases hop
        trivial
    | int => cases ht
    | float => cases ht
    | str => cases ht

end Machine

end AdaptiveVM
