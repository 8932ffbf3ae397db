import AdaptiveVM.Proofs.Refusals
import AdaptiveVM.Proofs.Sightings

/-!
What a stable site sees.

Two executions of a site need not see the same values to be alike: a name may have been given
another value, and another instance of the same shape will do. What has to be the same is the look,
and the tokens that stand for it. A specializer writes down the tokens of the look, and the guard of
the member it comes to reads just these again; so the guard holds as long as the look is the same
and its tokens are, and these change only when a name is added to a namespace or removed from it.
-/

namespace AdaptiveVM

/-! ### Everything has a token -/

namespace Heap

variable {h h' : Heap}

/-- A request makes one function at most, and no function goes away. -/
lemma serve_functions (h : Heap) (r : Request) :
    ((h.serve r).functions = h.functions ∧ (h.serve r).tokens.functions = h.tokens.functions) ∨
      ∃ fn : Function, fn.version = h.tokens.functions.draw.1 ∧
        (h.serve r).functions = h.functions.push fn ∧
        (h.serve r).tokens.functions = h.tokens.functions.draw.2 := by
  have hextend (s : Nat) (key : String) : (h.extendShape s key).2.functions = h.functions ∧
      (h.extendShape s key).2.tokens.functions = h.tokens.functions := by
    rcases extendShape_cases h s key with ⟨next, -, he⟩ | ⟨-, he⟩ | ⟨-, he⟩ <;> rw [he] <;>
      exact ⟨rfl, rfl⟩
  cases r with
  | newFunction unit globals defaults =>
    dsimp only [serve]
    split
    · exact .inr ⟨_, rfl, rfl, rfl⟩
    · exact .inl ⟨rfl, rfl⟩
  | extendShape shape key => exact .inl (hextend shape key)
  | setField o key value =>
    dsimp only [serve, setField]
    split
    · exact .inl ⟨rfl, rfl⟩
    · exact .inl (hextend _ key)
  | assign n key value =>
    dsimp only [serve, assign]
    split <;> exact .inl ⟨rfl, rfl⟩
  | remove n key =>
    dsimp only [serve, remove]
    split <;> exact .inl ⟨rfl, rfl⟩
  | _ => exact .inl ⟨rfl, rfl⟩

/-- A request makes one builtin at most, and no builtin goes away. -/
lemma serve_builtins (h : Heap) (r : Request) :
    ((h.serve r).builtins = h.builtins ∧ (h.serve r).tokens.builtins = h.tokens.builtins) ∨
      ∃ b : Builtin, b.id = h.tokens.builtins.draw.1 ∧
        (h.serve r).builtins = h.builtins.push b ∧
        (h.serve r).tokens.builtins = h.tokens.builtins.draw.2 := by
  have hextend (s : Nat) (key : String) : (h.extendShape s key).2.builtins = h.builtins ∧
      (h.extendShape s key).2.tokens.builtins = h.tokens.builtins := by
    rcases extendShape_cases h s key with ⟨next, -, he⟩ | ⟨-, he⟩ | ⟨-, he⟩ <;> rw [he] <;>
      exact ⟨rfl, rfl⟩
  cases r with
  | newBuiltin name arity procedure => exact .inr ⟨_, rfl, rfl, rfl⟩
  | newFunction unit globals defaults =>
    dsimp only [serve]
    split <;> exact .inl ⟨rfl, rfl⟩
  | extendShape shape key => exact .inl (hextend shape key)
  | setField o key value =>
    dsimp only [serve, setField]
    split
    · exact .inl ⟨rfl, rfl⟩
    · exact .inl (hextend _ key)
  | assign n key value =>
    dsimp only [serve, assign]
    split <;> exact .inl ⟨rfl, rfl⟩
  | remove n key =>
    dsimp only [serve, remove]
    split <;> exact .inl ⟨rfl, rfl⟩
  | _ => exact .inl ⟨rfl, rfl⟩

/-- The heap is well formed, and everything in it has a token as long as the sources last. -/
structure Labelled (h : Heap) : Prop where
  wellFormed : h.WellFormed
  tidy : ∀ n, (h.namespaceAt n).Tidy
  dated : h.Dated
  stamped : h.Stamped
  functions : h.tokens.functions.Numbers h.functions.size h.functionToken
  builtins : h.tokens.builtins.Numbers h.builtins.size h.builtinToken

namespace Labelled

lemma empty : ({} : Heap).Labelled where
  wellFormed := wellFormed_empty
  tidy _ := .empty _
  dated := dated_empty
  stamped := .empty
  functions := .empty _
  builtins := .empty _

lemma serve (hh : h.Labelled) (r : Request) : (h.serve r).Labelled where
  wellFormed := ((serve_develops h r).keeps hh.wellFormed).1
  tidy := (serve_serves h r).tidy hh.tidy
  dated := hh.dated.serve r
  stamped := hh.stamped.serve r
  functions := by
    unfold functionToken
    rcases serve_functions h r with ⟨hsame, htokens⟩ | ⟨fn, hversion, hpush, htokens⟩
    · rw [hsame, htokens]
      exact hh.functions
    · rw [hpush, htokens]
      exact numbers_push hh.functions hversion
  builtins := by
    unfold builtinToken
    rcases serve_builtins h r with ⟨hsame, htokens⟩ | ⟨b, hid, hpush, htokens⟩
    · rw [hsame, htokens]
      exact hh.builtins
    · rw [hpush, htokens]
      exact numbers_push hh.builtins hid

lemma becomes (hh : h.Labelled) (hb : h.Becomes h') : h'.Labelled := by
  induction hb with
  | same => exact hh
  | served _ r ih => exact ih.serve r
  | @drawn h' _ s ih =>
    have hdevelops : h'.Develops { h' with sources := s } := .of_moves {} rfl rfl rfl rfl
    exact ⟨(hdevelops.keeps ih.wellFormed).1, ih.tidy, ih.dated,
      ih.stamped.of_eq rfl rfl, ih.functions, ih.builtins⟩
  | coded _ u ih =>
    exact ⟨(newUnit_keeps ih.wellFormed u).1, ih.tidy, ih.dated,
      ih.stamped.of_eq rfl rfl, ih.functions, ih.builtins⟩

end Labelled

/-! ### What an action keeps -/

/-- A namespace that binds the names it bound has the version it had, and functions and builtins
stay. -/
structure Advances (h h' : Heap) : Prop where
  names : ∀ n < h.namespaces.size,
    (h'.namespaceAt n).contains = (h.namespaceAt n).contains → h'.keysToken n = h.keysToken n
  functions : Grown h.functions h'.functions
  builtins : Grown h.builtins h'.builtins

lemma Advances.of_eq (hn : h'.namespaces = h.namespaces) (hf : h'.functions = h.functions)
    (hb : h'.builtins = h.builtins) : Advances h h' where
  names n _ _ := by rw [keysToken, namespaceAt, hn, keysToken, namespaceAt]
  functions := .of_eq hf
  builtins := .of_eq hb

lemma serve_grown (h : Heap) (r : Request) :
    Grown h.functions (h.serve r).functions ∧ Grown h.builtins (h.serve r).builtins := by
  constructor
  · rcases serve_functions h r with ⟨hsame, -⟩ | ⟨fn, -, hpush, -⟩
    · exact .of_eq hsame
    · rw [hpush]
      exact .push _ _
  · rcases serve_builtins h r with ⟨hsame, -⟩ | ⟨b, -, hpush, -⟩
    · exact .of_eq hsame
    · rw [hpush]
      exact .push _ _

lemma serve_advances (h : Heap) (r : Request) : h.Advances (h.serve r) where
  names n hn hkeys := by
    rw [(serve_serves h r).old n hn] at hkeys
    rw [keysToken, (serve_serves h r).old n hn]
    rcases Namespace.keysVersion_served (h.namespaceAt n) n h.tokens.keys.draw.1 r with
      ⟨hsame, -⟩ | ⟨-, hne⟩
    · exact hsame
    · exact absurd hkeys hne
  functions := (serve_grown h r).1
  builtins := (serve_grown h r).2

end Heap

namespace Builtins

variable {h : Heap} {m : Ref .mod} {n : Nat}

/-- Builtins are registered in one module, and other namespaces stay as they are. -/
lemma registerAll_namespaceAt (hm : m.id ≠ n) (ts : Table) (hn : n < h.namespaces.size) :
    (registerAll m ts h).namespaceAt n = h.namespaceAt n := by
  induction ts generalizing h with
  | nil => rfl
  | cons e ts ih =>
    have hmade := Heap.serve_serves h (.newBuiltin e.1 e.2.1 (.compute e.2.2))
    have hbound := Heap.serve_serves (h.serve (.newBuiltin e.1 e.2.1 (.compute e.2.2)))
      (.assign m.id e.1 (.builtin ⟨h.builtins.size, e.1⟩))
    have hn₁ : n < (h.serve (.newBuiltin e.1 e.2.1 (.compute e.2.2))).namespaces.size := hn
    have hn₂ := hbound.size
    simp only [Request.opens, Bool.false_eq_true, if_false] at hn₂
    refine (ih (by rw [← hn₂] at hn₁; exact hn₁)).trans ?_
    refine (hbound.old n hn₁).trans ?_
    simp only [Namespace.served, if_neg hm]
    rfl

lemma installAll_advances (ts : Table) (h : Heap) : h.Advances (installAll ts h) where
  names n hn _ := by
    have hopened := Heap.serve_serves h (.newModule "builtins")
    have hn' := hopened.size
    simp only [Request.opens, if_true] at hn'
    rw [Heap.keysToken, installAll, registerAll_namespaceAt (Nat.ne_of_gt hn) ts (by omega),
      hopened.old n hn]
    rfl
  functions := installAll_keeps (P := fun h' => Grown h.functions h'.functions)
    (fun h' r _ hg => hg.trans (h'.serve_grown r).1) ts (.refl _)
  builtins := installAll_keeps (P := fun h' => Grown h.builtins h'.builtins)
    (fun h' r _ hg => hg.trans (h'.serve_grown r).2) ts (.refl _)

end Builtins

lemma Heap.Changes.advances {h h' : Heap} (hc : h.Changes h') : h.Advances h' := by
  cases hc with
  | same => exact .of_eq rfl rfl rfl
  | served r => exact serve_advances h r
  | drawn s => exact .of_eq rfl rfl rfl
  | coded u => exact .of_eq rfl rfl rfl
  | created c =>
    rw [Vm.create_eq]
    generalize Builtins.table = ts
    exact Builtins.installAll_advances ts h

/-! ### Looks -/

/-- What can be the same from one execution of a site to the next. -/
inductive Look where
  /-- A name that the module binds. -/
  | global (globals : Nat)
  /-- A name that the module does not bind, and the builtins do. -/
  | builtinGlobal (globals builtins : Nat)
  /-- A field of instances of one shape. -/
  | field (shape : Token)
  /-- An attribute of the class of instances of one shape, which does not have it as a field. -/
  | classAttribute (shape : Token) (attributes : Nat)
  | moduleAttribute (names : Nat)
  /-- A function with as many parameters as there are arguments. -/
  | function (id : Nat)
  /-- A builtin with as many parameters as there are arguments. -/
  | builtin (id : Nat)
  | ints
  | floats
  | strs
  deriving DecidableEq

namespace Look

/-- The member of the family that is made for the look. -/
def member : Look → QuickOp
  | .global _ => .loadGlobal .mod
  | .builtinGlobal .. => .loadGlobal .builtin
  | .field _ => .loadAttr .instanceValue
  | .classAttribute .. => .loadAttr .cls
  | .moduleAttribute _ => .loadAttr .mod
  | .function _ => .call .functionExact
  | .builtin _ => .call .builtin
  | .ints => .binaryAdd .int
  | .floats => .binaryAdd .float
  | .strs => .binaryAdd .str

/-- The namespaces in which the name is looked up. -/
def names : Look → List Nat
  | .global globals => [globals]
  | .builtinGlobal globals builtins => [globals, builtins]
  | .classAttribute _ attributes => [attributes]
  | .moduleAttribute names => [names]
  | _ => []

/-- The look of a global. The module comes first, even where it has the name in a slot that is too
far away for a guard. -/
def ofNames? (h : Heap) (globals builtins : Nat) (key : String) : Option Look :=
  if globals < h.namespaces.size then
    match (h.namespaceAt globals).indexOf? key with
    | some i => if i < 65536 then some (.global globals) else none
    | none =>
      match (h.namespaceAt builtins).indexOf? key with
      | some i => if i < 65536 then some (.builtinGlobal globals builtins) else none
      | none => none
  else none

/-- The look of an attribute. The fields of an instance come first, and then its class. -/
def ofReceiver? (h : Heap) (key : String) : Value → Option Look
  | .inst o =>
    if (h.instanceAt o).shape < h.shapes.size then
      match (h.shapeOf o).indexOf? key with
      | some i => if i < 65536 then some (.field (h.shapeOf o).id) else none
      | none =>
        match (h.attributesOf (h.instanceAt o).cls).indexOf? key with
        | some i =>
          if i < 65536 then
            some (.classAttribute (h.shapeOf o).id (h.classAt (h.instanceAt o).cls).attributes)
          else none
        | none => none
    else none
  | .mod m =>
    match (h.namespaceAt m.id).indexOf? key with
    | some i => if i < 65536 then some (.moduleAttribute m.id) else none
    | none => none
  | _ => none

/-- The look of a call with a number of arguments. -/
def ofCallee? (h : Heap) (argc : UInt8) : Value → Option Look
  | .function f =>
    if f.id < h.functions.size ∧ (h.unitAt (h.functionAt f).unit).argcount = argc then
      some (.function f.id)
    else none
  | .builtin b => if (h.builtinAt b).arity = some argc then some (.builtin b.id) else none
  | _ => none

/-- The look of an addition. -/
def ofOperands? : Value → Value → Option Look
  | .int _, .int _ => some .ints
  | .float _, .float _ => some .floats
  | .str _, .str _ => some .strs
  | _, _ => none

end Look

/-- The look of what an instruction sees, if it has one: its operand is a name or a number of
arguments. -/
def Sight.look? (h : Heap) (u : CodeUnit) (arg : UInt8) : Sight → Option Look
  | .names globals builtins => (u.name? arg).bind (Look.ofNames? h globals builtins)
  | .receiver v => (u.name? arg).bind fun key => Look.ofReceiver? h key v
  | .callee v => Look.ofCallee? h arg v
  | .operands left right => Look.ofOperands? left right

/-- The tokens that stand for a look. -/
def Look.tokens (h : Heap) : Look → List Token
  | .global globals => [h.keysToken globals]
  | .builtinGlobal globals builtins => [h.keysToken globals, h.keysToken builtins]
  | .field shape => [shape]
  | .classAttribute shape attributes => [shape, h.keysToken attributes]
  | .moduleAttribute names => [h.keysToken names]
  | .function f => [h.functionToken f]
  | .builtin b => [h.builtinToken b]
  | .ints | .floats | .strs => []

/-- The tokens that the guard of a member compares. -/
def QuickOp.compares (e : Entry) (v : VersionPair) : QuickOp → List Token
  | .loadGlobal .mod => [v.first]
  | .loadGlobal .builtin => [v.first, v.second]
  | .loadAttr .instanceValue => [e.version]
  | .loadAttr .cls => [v.first, e.version]
  | .loadAttr .mod => [e.version]
  | .call .functionExact => [e.version]
  | .call .builtin => [e.version]
  | _ => []

/-! ### Tokens of looks -/

namespace Look

variable {h h' : Heap} {L : Look} {key : String} {globals builtins : Nat} {argc : UInt8}
  {value left right : Value}

lemma ofNames?_cases (hl : ofNames? h globals builtins key = some L) :
    globals < h.namespaces.size ∧
      ((∃ i < 65536, (h.namespaceAt globals).indexOf? key = some i ∧ L = .global globals) ∨
        ((h.namespaceAt globals).indexOf? key = none ∧
          ∃ i < 65536, (h.namespaceAt builtins).indexOf? key = some i ∧
            L = .builtinGlobal globals builtins)) := by
  obtain ⟨hthere, hl⟩ := Option.ite_none_right_eq_some.mp hl
  refine ⟨hthere, ?_⟩
  split at hl
  · next i hi =>
    obtain ⟨hlt, hL⟩ := Option.ite_none_right_eq_some.mp hl
    exact .inl ⟨i, hlt, hi, (Option.some.inj hL).symm⟩
  · next hnone =>
    split at hl
    · next i hi =>
      obtain ⟨hlt, hL⟩ := Option.ite_none_right_eq_some.mp hl
      exact .inr ⟨hnone, i, hlt, hi, (Option.some.inj hL).symm⟩
    · cases hl

lemma ofReceiver?_cases (hl : ofReceiver? h key value = some L) :
    (∃ o, value = .inst o ∧ (h.instanceAt o).shape < h.shapes.size ∧
      ((∃ i < 65536, (h.shapeOf o).indexOf? key = some i ∧ L = .field (h.shapeOf o).id) ∨
        ((h.shapeOf o).indexOf? key = none ∧
          ∃ i < 65536, (h.attributesOf (h.instanceAt o).cls).indexOf? key = some i ∧
            L = .classAttribute (h.shapeOf o).id (h.classAt (h.instanceAt o).cls).attributes))) ∨
      ∃ m, value = .mod m ∧ ∃ i < 65536, (h.namespaceAt m.id).indexOf? key = some i ∧
        L = .moduleAttribute m.id := by
  cases value with
  | inst o =>
    simp only [ofReceiver?] at hl
    obtain ⟨hshape, hl⟩ := Option.ite_none_right_eq_some.mp hl
    refine .inl ⟨o, rfl, hshape, ?_⟩
    split at hl
    · next i hi =>
      obtain ⟨hlt, hL⟩ := Option.ite_none_right_eq_some.mp hl
      exact .inl ⟨i, hlt, hi, (Option.some.inj hL).symm⟩
    · next hnone =>
      split at hl
      · next i hi =>
        obtain ⟨hlt, hL⟩ := Option.ite_none_right_eq_some.mp hl
        exact .inr ⟨hnone, i, hlt, hi, (Option.some.inj hL).symm⟩
      · cases hl
  | mod m =>
    simp only [ofReceiver?] at hl
    split at hl
    · next i hi =>
      obtain ⟨hlt, hL⟩ := Option.ite_none_right_eq_some.mp hl
      exact .inr ⟨m, rfl, i, hlt, hi, (Option.some.inj hL).symm⟩
    · cases hl
  | _ => cases hl

lemma ofCallee?_cases (hl : ofCallee? h argc value = some L) :
    (∃ f, value = .function f ∧ f.id < h.functions.size ∧
      (h.unitAt (h.functionAt f).unit).argcount = argc ∧ L = .function f.id) ∨
      ∃ b, value = .builtin b ∧ (h.builtinAt b).arity = some argc ∧ L = .builtin b.id := by
  cases value with
  | function f =>
    simp only [ofCallee?] at hl
    obtain ⟨⟨hlt, hargs⟩, hL⟩ := Option.ite_none_right_eq_some.mp hl
    exact .inl ⟨f, rfl, hlt, hargs, (Option.some.inj hL).symm⟩
  | builtin b =>
    simp only [ofCallee?] at hl
    obtain ⟨harity, hL⟩ := Option.ite_none_right_eq_some.mp hl
    exact .inr ⟨b, rfl, harity, (Option.some.inj hL).symm⟩
  | _ => cases hl

lemma ofOperands?_cases (hl : ofOperands? left right = some L) :
    (∃ a b, left = .int a ∧ right = .int b ∧ L = .ints) ∨
      (∃ a b, left = .float a ∧ right = .float b ∧ L = .floats) ∨
      ∃ a b, left = .str a ∧ right = .str b ∧ L = .strs := by
  unfold ofOperands? at hl
  split at hl
  · exact .inl ⟨_, _, rfl, rfl, (Option.some.inj hl).symm⟩
  · exact .inr (.inl ⟨_, _, rfl, rfl, (Option.some.inj hl).symm⟩)
  · exact .inr (.inr ⟨_, _, rfl, rfl, (Option.some.inj hl).symm⟩)
  · cases hl

/-- **A look keeps its tokens** as long as no name is added where it looks a name up, and none is
removed. -/
theorem tokens_advances (ha : h.Advances h')
    (hkeys : ∀ n ∈ L.names, (h'.namespaceAt n).contains = (h.namespaceAt n).contains)
    (hz : (0 : Token) ∉ L.tokens h) : L.tokens h' = L.tokens h := by
  -- what is not there has no token
  have hnames (n : Nat) (hn : n ∈ L.names) (hne : h.keysToken n ≠ 0) :
      h'.keysToken n = h.keysToken n := by
    refine ha.names n ?_ (hkeys n hn)
    by_contra hc
    exact hne (by rw [Heap.keysToken, Heap.namespaceAt_of_size_le (by omega)])
  have hfunction (f : Nat) (hne : h.functionToken f ≠ 0) :
      h'.functionToken f = h.functionToken f := by
    refine congrArg Function.version (ha.functions.same f ?_)
    by_contra hc
    exact hne (by rw [Heap.functionToken, getD_of_size_le (by omega)]; rfl)
  have hbuiltin (b : Nat) (hne : h.builtinToken b ≠ 0) :
      h'.builtinToken b = h.builtinToken b := by
    refine congrArg Builtin.id (ha.builtins.same b ?_)
    by_contra hc
    exact hne (by rw [Heap.builtinToken, getD_of_size_le (by omega)]; rfl)
  have hne (t : Token) (ht : t ∈ L.tokens h) : t ≠ 0 := fun hc => hz (hc ▸ ht)
  cases L with
  | global globals =>
    rw [tokens, tokens, hnames globals (by simp [names]) (hne _ (by simp [tokens]))]
  | builtinGlobal globals builtins =>
    rw [tokens, tokens, hnames globals (by simp [names]) (hne _ (by simp [tokens])),
      hnames builtins (by simp [names]) (hne _ (by simp [tokens]))]
  | classAttribute shape attributes =>
    rw [tokens, tokens, hnames attributes (by simp [names]) (hne _ (by simp [tokens]))]
  | moduleAttribute n =>
    rw [tokens, tokens, hnames n (by simp [names]) (hne _ (by simp [tokens]))]
  | function f => rw [tokens, tokens, hfunction f (hne _ (by simp [tokens]))]
  | builtin b => rw [tokens, tokens, hbuiltin b (hne _ (by simp [tokens]))]
  | field _ | ints | floats | strs => rfl

/-- Where everything has a token, every look that is seen has its tokens. -/
theorem zero_not_mem_tokens (hh : h.Labelled) (hlast : h.tokens.Lasting) {u : CodeUnit} {s : Sight}
    (hl : s.look? h u argc = some L) : (0 : Token) ∉ L.tokens h := by
  have hthere {n : Nat} (hn : n < h.namespaces.size) : 0 ≠ h.keysToken n :=
    (hh.dated.numbered (hlast .keys) n hn).symm
  have hkeys {n i : Nat} {key : String} (hi : (h.namespaceAt n).indexOf? key = some i) :
      0 ≠ h.keysToken n := hthere (Heap.lt_size_of_indexOf? hi)
  have hshape {o : Ref .inst} (ho : (h.instanceAt o).shape < h.shapes.size) :
      0 ≠ (h.shapeOf o).id :=
    (hh.stamped.numbered (hlast .shapes) _ ho).symm
  cases s with
  | names globals builtins =>
    obtain ⟨key, -, hl⟩ := Option.bind_eq_some_iff.mp hl
    obtain ⟨hg, ⟨i, -, hi, rfl⟩ | ⟨-, i, -, hi, rfl⟩⟩ := ofNames?_cases hl
    · simpa [tokens] using hthere hg
    · simpa [tokens] using ⟨hthere hg, hkeys hi⟩
  | receiver v =>
    obtain ⟨key, -, hl⟩ := Option.bind_eq_some_iff.mp hl
    rcases ofReceiver?_cases hl with
      ⟨o, -, ho, ⟨i, -, hi, rfl⟩ | ⟨-, i, -, hi, rfl⟩⟩ | ⟨m, -, i, -, hi, rfl⟩
    · simpa [tokens] using hshape ho
    · simpa [tokens] using ⟨hshape ho, hkeys hi⟩
    · simpa [tokens] using hkeys hi
  | callee v =>
    rcases ofCallee?_cases hl with ⟨f, -, hf, -, rfl⟩ | ⟨b, -, harity, rfl⟩
    · have hne : h.functionToken f.id ≠ 0 := hh.functions.numbered (hlast .functions) f.id hf
      simpa [tokens] using hne.symm
    · have hb : b.id < h.builtins.size := by
        -- a builtin that is not there takes any number of arguments
        by_contra hc
        rw [Heap.builtinAt, getD_of_size_le (by omega)] at harity
        cases harity
      have hne : h.builtinToken b.id ≠ 0 := hh.builtins.numbered (hlast .builtins) b.id hb
      simpa [tokens] using hne.symm
  | operands left right =>
    rcases ofOperands?_cases hl with ⟨_, _, -, -, rfl⟩ | ⟨_, _, -, -, rfl⟩ | ⟨_, _, -, -, rfl⟩ <;>
      simp [tokens]

end Look

/-! ### What a specializer makes of a look -/

/-- The attempt comes to the member for a look, and writes down the tokens of the look. -/
structure Attempt.Records (t : Attempt) (h : Heap) (L : Look) : Prop where
  verdict : t.verdict = .ok L.member
  tokens : ∀ e v, L.member.compares (t.entry e) (t.pair v) = L.tokens h

namespace Specialize

variable {h : Heap} {L : Look} {key : String} {value left right : Value} {argc : UInt8}

lemma slot?_of_lt {i : Nat} (hi : i < 65536) : slot? i = some i.toUInt16 := if_pos hi

lemma loadGlobal_records {globals builtins : Nat}
    (hl : Look.ofNames? h globals builtins key = some L) (hz : (0 : Token) ∉ L.tokens h) :
    (loadGlobal (h.namespaceAt globals) (h.namespaceAt builtins) key).Records h L := by
  obtain ⟨-, ⟨i, hlt, hi, rfl⟩ | ⟨hnone, i, hlt, hi, rfl⟩⟩ := Look.ofNames?_cases hl
  · have hg : (h.namespaceAt globals).keysVersion ≠ 0 :=
      ne_of_mem_of_not_mem List.mem_cons_self hz
    simp only [loadGlobal, if_neg hg, hi, slot?_of_lt hlt]
    exact ⟨rfl, fun e v => rfl⟩
  · have hg : (h.namespaceAt globals).keysVersion ≠ 0 :=
      ne_of_mem_of_not_mem List.mem_cons_self hz
    have hb : (h.namespaceAt builtins).keysVersion ≠ 0 :=
      ne_of_mem_of_not_mem (List.mem_cons_of_mem _ List.mem_cons_self) hz
    simp only [loadGlobal, if_neg hg, hnone, if_neg hb, hi, slot?_of_lt hlt]
    exact ⟨rfl, fun e v => rfl⟩

lemma loadAttr_records (hl : Look.ofReceiver? h key value = some L)
    (hz : (0 : Token) ∉ L.tokens h) : (loadAttr h value key).Records h L := by
  rcases Look.ofReceiver?_cases hl with
    ⟨o, rfl, -, ⟨i, hlt, hi, rfl⟩ | ⟨hnone, i, hlt, hi, rfl⟩⟩ | ⟨m, rfl, i, hlt, hi, rfl⟩
  · have hs : (h.shapeOf o).id ≠ 0 := ne_of_mem_of_not_mem List.mem_cons_self hz
    simp only [loadAttr, hi, instanceValue, slot?_of_lt hlt, if_neg hs]
    exact ⟨rfl, fun e v => rfl⟩
  · have hs : (h.shapeOf o).id ≠ 0 := ne_of_mem_of_not_mem List.mem_cons_self hz
    have ha : (h.attributesOf (h.instanceAt o).cls).keysVersion ≠ 0 :=
      ne_of_mem_of_not_mem (List.mem_cons_of_mem _ List.mem_cons_self) hz
    simp only [loadAttr, hnone, classAttribute, if_neg ha, hi, slot?_of_lt hlt, if_neg hs]
    exact ⟨rfl, fun e v => rfl⟩
  · have hm : (h.namespaceAt m.id).keysVersion ≠ 0 :=
      ne_of_mem_of_not_mem List.mem_cons_self hz
    simp only [loadAttr, moduleAttribute, if_neg hm, hi, slot?_of_lt hlt]
    exact ⟨rfl, fun e v => rfl⟩

lemma call_records (hl : Look.ofCallee? h argc value = some L) (hz : (0 : Token) ∉ L.tokens h) :
    (call h value argc).Records h L := by
  rcases Look.ofCallee?_cases hl with ⟨f, rfl, -, hargs, rfl⟩ | ⟨b, rfl, harity, rfl⟩
  · have hf : (h.functionAt f).version ≠ 0 := ne_of_mem_of_not_mem List.mem_cons_self hz
    simp only [call, hargs, ne_eq, not_true_eq_false, if_false, callee, if_neg hf]
    exact ⟨rfl, fun e v => rfl⟩
  · have hb : (h.builtinAt b).id ≠ 0 := ne_of_mem_of_not_mem List.mem_cons_self hz
    simp only [call, harity, ne_eq, not_true_eq_false, if_false, callee, if_neg hb]
    exact ⟨rfl, fun e v => rfl⟩

lemma binaryAdd_records (hl : Look.ofOperands? left right = some L) :
    (binaryAdd left right).Records h L := by
  rcases Look.ofOperands?_cases hl with
    ⟨_, _, rfl, rfl, rfl⟩ | ⟨_, _, rfl, rfl, rfl⟩ | ⟨_, _, rfl, rfl, rfl⟩ <;>
    exact ⟨rfl, fun e v => rfl⟩

end Specialize

/-! ### What a guard makes of a look -/

lemma Namespace.Tidy.isSome_valueAt? {ns : Namespace} (ht : ns.Tidy) {key : String} {i : Nat}
    (hi : ns.indexOf? key = some i) : (ns.valueAt? i).isSome = true := by
  obtain ⟨v, hv⟩ := (ht.slot key i).mp hi
  rw [valueAt?, hv]
  rfl

/-- An instance has a value for every field of its shape. -/
lemma Heap.Shaped.isSome_fieldAt? {h : Heap} (hs : h.Shaped) {o : Ref .inst} {key : String}
    {i : Nat} (hi : (h.shapeOf o).indexOf? key = some i) : (h.fieldAt? o i).isSome = true := by
  have hlt : i < (h.shapeOf o).keys.size := (Array.findIdx?_eq_some_iff_getElem.mp hi).1
  have hsize : (h.shapeOf o).keys.size ≤ (h.instanceAt o).fields.size := (hs.fields o.id).2
  rw [fieldAt?, Array.getElem?_eq_getElem (by omega)]
  rfl

section Guards

variable {h : Heap} {L : Look} {key : String} {e : Entry} {v : VersionPair}

lemma LoadGlobalMember.isSome_probe {member : LoadGlobalMember} {globals builtins : Nat}
    (htidy : ∀ n, (h.namespaceAt n).Tidy) (ht : member.Trusted h key e v)
    (hl : Look.ofNames? h globals builtins key = some L) (hop : .loadGlobal member = L.member)
    (hc : L.member.compares e v = L.tokens h) :
    (member.probe e v (h.namespaceAt globals) (h.namespaceAt builtins)).isSome = true := by
  obtain ⟨-, ⟨i, -, -, rfl⟩ | ⟨-, i, -, -, rfl⟩⟩ := Look.ofNames?_cases hl
  · cases hop
    obtain ⟨hfirst, -⟩ := List.cons_eq_cons.mp hc
    rw [probe, if_pos ⟨ht.issued.1, hfirst.symm⟩]
    exact (htidy globals).isSome_valueAt? (ht.tells globals hfirst.symm)
  · cases hop
    obtain ⟨hfirst, hrest⟩ := List.cons_eq_cons.mp hc
    obtain ⟨hsecond, -⟩ := List.cons_eq_cons.mp hrest
    rw [probe, if_pos ⟨ht.1.issued.1, ht.2.issued.1, hfirst.symm, hsecond.symm⟩]
    exact (htidy builtins).isSome_valueAt? (ht.2.tells builtins hsecond.symm)

lemma LoadAttrMember.isSome_probe {member : LoadAttrMember} {value : Value} (hs : h.Shaped)
    (htidy : ∀ n, (h.namespaceAt n).Tidy) (ht : member.Trusted h key e v)
    (hl : Look.ofReceiver? h key value = some L) (hop : .loadAttr member = L.member)
    (hc : L.member.compares e v = L.tokens h) : (member.probe e v h value).isSome = true := by
  rcases Look.ofReceiver?_cases hl with
    ⟨o, rfl, -, ⟨i, -, -, rfl⟩ | ⟨-, i, -, -, rfl⟩⟩ | ⟨m, rfl, i, -, -, rfl⟩
  · cases hop
    obtain ⟨hversion, -⟩ := List.cons_eq_cons.mp hc
    rw [probe, if_neg ht.issued.1, Heap.fieldIfShape?, if_pos hversion.symm]
    exact hs.isSome_fieldAt? (ht.tells _ hversion.symm)
  · cases hop
    obtain ⟨hfirst, hrest⟩ := List.cons_eq_cons.mp hc
    obtain ⟨hversion, -⟩ := List.cons_eq_cons.mp hrest
    have hkeys : (h.attributesOf (h.instanceAt o).cls).keysVersion = e.version := hversion.symm
    rw [probe, if_neg ht.2.issued.1]
    dsimp only
    rw [if_pos hfirst.symm, if_pos hkeys]
    exact (htidy _).isSome_valueAt? (ht.2.tells _ hversion.symm)
  · cases hop
    obtain ⟨hversion, -⟩ := List.cons_eq_cons.mp hc
    have hkeys : (h.namespaceAt m.id).keysVersion = e.version := hversion.symm
    rw [probe, if_neg ht.issued.1]
    dsimp only
    rw [if_pos hkeys]
    exact (htidy _).isSome_valueAt? (ht.tells _ hversion.symm)

lemma CallMember.isSome_probe {member : CallMember} {value : Value} (ht : member.Trusted h e)
    (hl : Look.ofCallee? h e.arg value = some L) (hop : .call member = L.member)
    (hc : L.member.compares e v = L.tokens h) : (member.probe e h value).isSome = true := by
  rcases Look.ofCallee?_cases hl with ⟨f, rfl, -, hargs, rfl⟩ | ⟨b, rfl, harity, rfl⟩
  · cases hop
    obtain ⟨hversion, -⟩ := List.cons_eq_cons.mp hc
    rw [probe, if_pos ⟨ht.issued.1, hversion.symm, hargs⟩]
    rfl
  · cases hop
    obtain ⟨hversion, -⟩ := List.cons_eq_cons.mp hc
    rw [probe, if_pos ⟨ht.issued.1, hversion.symm, harity⟩]
    rfl

lemma BinaryAddMember.isSome_probe {member : BinaryAddMember} {left right : Value}
    (hl : Look.ofOperands? left right = some L) (hop : .binaryAdd member = L.member) :
    (member.probe left right).isSome = true := by
  rcases Look.ofOperands?_cases hl with
    ⟨_, _, rfl, rfl, rfl⟩ | ⟨_, _, rfl, rfl, rfl⟩ | ⟨_, _, rfl, rfl, rfl⟩ <;> cases hop <;> rfl

end Guards

namespace Machine.Faces

variable {h : Heap} {u : CodeUnit} {q : Quickened} {p : Nat} {s : Sight} {fam : Family} {t : Trial}
  {L : Look}

/-- **An adaptive site** that sees a look would specialize to the member for it, with its tokens. -/
theorem attempts (hf : Faces h u q p s fam t) (hl : s.look? h u (q.entryAt p).arg = some L)
    (hz : (0 : Token) ∉ L.tokens h) (ha : (q.instrAt p).op.isAdaptive = true) :
    ∃ attempt, t = .adaptive attempt ∧ attempt.Records h L := by
  cases hf with
  | @loadGlobal member key globals builtins op name =>
    rw [op] at ha
    cases member <;> cases ha
    rw [Sight.look?, name] at hl
    exact ⟨_, rfl, Specialize.loadGlobal_records hl hz⟩
  | @loadAttr member key receiver op name =>
    rw [op] at ha
    cases member <;> cases ha
    rw [Sight.look?, name] at hl
    exact ⟨_, rfl, Specialize.loadAttr_records hl hz⟩
  | @call member callee op =>
    rw [op] at ha
    cases member <;> cases ha
    exact ⟨_, rfl, Specialize.call_records hl hz⟩
  | @binaryAdd member left right op =>
    rw [op] at ha
    cases member <;> cases ha
    exact ⟨_, rfl, Specialize.binaryAdd_records hl⟩

/-- **A site with the member for a look** hits when it sees the look again, if it has the tokens. -/
theorem hits (hf : Faces h u q p s fam t) (hl : s.look? h u (q.entryAt p).arg = some L)
    (hh : h.Labelled) (hq : q.Sound h u) (hop : (q.instrAt p).op = L.member)
    (hc : L.member.compares (q.entryAt p) (q.versionsAt p) = L.tokens h) : t = .guarded true := by
  have htrust := hq.trusted p
  cases hf with
  | @loadGlobal member key globals builtins op name =>
    rw [op] at hop htrust
    rw [Sight.look?, name] at hl
    rw [LoadGlobalMember.isSome_probe hh.tidy (htrust key name) hl hop hc]
    refine if_neg ?_
    rintro rfl
    cases L <;> cases hop
  | @loadAttr member key receiver op name =>
    rw [op] at hop htrust
    rw [Sight.look?, name] at hl
    rw [LoadAttrMember.isSome_probe hh.wellFormed.shaped hh.tidy (htrust key name) hl hop hc]
    refine if_neg ?_
    rintro rfl
    cases L <;> cases hop
  | @call member callee op =>
    rw [op] at hop htrust
    rw [CallMember.isSome_probe htrust hl hop hc]
    refine if_neg ?_
    rintro rfl
    cases L <;> cases hop
  | @binaryAdd member left right op =>
    rw [op] at hop
    rw [BinaryAddMember.isSome_probe hl hop]
    refine if_neg ?_
    rintro rfl
    cases L <;> cases hop

end Machine.Faces

end AdaptiveVM
