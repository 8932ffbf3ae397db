import AdaptiveVM.Heap
import Mathlib

/-!
Tokens mean what they meant when they were handed out.

A source never hands out a token twice, so among all objects of a kind each token other than
`0` stands for one object, and whoever finds a token again finds the object it was taken from,
with the same keys. `Later` says so of two moments of a heap; it is a preorder, and every
operation of the heap goes along it. An exhausted source hands out `0`, which stands for nothing,
so none of this needs the sources to last.
-/

namespace AdaptiveVM

/-! ### Sources -/

namespace TokenSource

variable {s : TokenSource} {t : Token} {token : Nat → Token}

/-- The source has handed out the token. -/
def Issued (s : TokenSource) (t : Token) : Prop := t ≠ 0 ∧ t < s.upcoming

lemma upcoming_lt_succ (h : s.upcoming ≠ limit) : s.upcoming < s.upcoming + 1 := by
  have hne : s.upcoming.toNat ≠ 4294967295 := fun hc => h (UInt32.toNat_inj.mp hc)
  have hlt := s.upcoming.toNat_lt
  rw [UInt32.lt_iff_toNat_lt, UInt32.toNat_add, UInt32.toNat_one, Nat.mod_eq_of_lt (by omega)]
  omega

lemma Issued.draw (h : s.Issued t) : s.draw.2.Issued t := by
  unfold TokenSource.draw
  split
  · exact h
  · next hne => exact ⟨h.1, UInt32.lt_trans h.2 (upcoming_lt_succ hne)⟩

/-- A token that is drawn is none of those handed out before. -/
lemma Issued.ne_draw (h : s.Issued t) : s.draw.1 ≠ t := by
  unfold TokenSource.draw
  split
  · exact fun hc => h.1 hc.symm
  · exact fun hc => UInt32.lt_irrefl _ (hc ▸ h.2)

lemma issued_draw (h : s.draw.1 ≠ 0) : s.draw.2.Issued s.draw.1 := by
  revert h
  unfold TokenSource.draw
  split
  · exact fun h => absurd rfl h
  · next hne => exact fun h => ⟨h, upcoming_lt_succ hne⟩

lemma draw_of_ne (h : s.upcoming ≠ limit) : s.draw = (s.upcoming, ⟨s.upcoming + 1⟩) := if_neg h

/-- A source that has handed out no more than one with room left has room left too. -/
lemma ne_limit_of_issued {s' : TokenSource} (hle : ∀ t, s.Issued t → s'.Issued t)
    (h : s'.upcoming ≠ limit) : s.upcoming ≠ limit := by
  intro hc
  have hlast := hle (limit - 1) ⟨by decide, by rw [hc]; decide⟩
  have hlt : (limit - 1).toNat < s'.upcoming.toNat := UInt32.lt_iff_toNat_lt.mp hlast.2
  have hval : (limit - 1).toNat = 4294967294 := by decide
  have hsize := s'.upcoming.toNat_lt
  have hne : s'.upcoming.toNat ≠ 4294967295 := fun h' => h (UInt32.toNat_inj.mp h')
  omega

lemma upcoming_draw_ne_zero (h : s.upcoming ≠ 0) : s.draw.2.upcoming ≠ 0 := by
  unfold TokenSource.draw
  split
  · exact h
  · next hne =>
    intro hc
    have hlt := upcoming_lt_succ hne
    change s.upcoming + 1 = 0 at hc
    rw [hc, UInt32.lt_iff_toNat_lt] at hlt
    exact absurd hlt (Nat.not_lt_zero _)

/-- The tokens of a table come from the source, and no two objects share one. -/
structure Covers (s : TokenSource) (token : Nat → Token) : Prop where
  issued : ∀ i, token i ≠ 0 → s.Issued (token i)
  inj : ∀ i j, token i = token j → token i ≠ 0 → i = j

lemma covers_zero (s : TokenSource) : s.Covers fun _ => 0 :=
  ⟨fun _ h => absurd rfl h, fun _ _ _ h => absurd rfl h⟩

lemma Covers.draw (h : s.Covers token) : s.draw.2.Covers token :=
  ⟨fun i hi => (h.issued i hi).draw, h.inj⟩

/-- One object takes a token that has just been drawn. -/
lemma Covers.update (h : s.Covers token) (k : Nat) :
    s.draw.2.Covers (Function.update token k s.draw.1) := by
  refine ⟨fun i hi => ?_, fun i j hij hi => ?_⟩
  · by_cases hik : i = k
    · subst hik
      rw [Function.update_self] at hi ⊢
      exact issued_draw hi
    · rw [Function.update_of_ne hik] at hi ⊢
      exact (h.issued i hi).draw
  · by_cases hik : i = k <;> by_cases hjk : j = k
    · rw [hik, hjk]
    · subst hik
      rw [Function.update_self] at hi hij
      rw [Function.update_of_ne hjk] at hij
      exact absurd hij (h.issued j (hij ▸ hi)).ne_draw
    · subst hjk
      rw [Function.update_of_ne hik] at hi hij
      rw [Function.update_self] at hij
      exact absurd hij.symm (h.issued i hi).ne_draw
    · rw [Function.update_of_ne hik] at hi hij
      rw [Function.update_of_ne hjk] at hij
      exact h.inj i j hij hi

/-- What one operation does to a source and the tokens of a table: nothing, or a token is drawn
that nobody takes, or one that a single object takes. -/
inductive Advance (s : TokenSource) (token : Nat → Token) : TokenSource → (Nat → Token) → Prop where
  | same : Advance s token s token
  | spent : Advance s token s.draw.2 token
  | given (k : Nat) : Advance s token s.draw.2 (Function.update token k s.draw.1)

variable {s' : TokenSource} {token' : Nat → Token}

lemma Advance.covers (ha : Advance s token s' token') (h : s.Covers token) : s'.Covers token' := by
  cases ha with
  | same => exact h
  | spent => exact h.draw
  | given k => exact h.update k

lemma Advance.issued (ha : Advance s token s' token') (h : s.Issued t) : s'.Issued t := by
  cases ha with
  | same => exact h
  | spent => exact h.draw
  | given k => exact h.draw

/-- An object whose token was handed out before has had it before. -/
lemma Advance.back (ha : Advance s token s' token') {i : Nat} (h : s.Issued (token' i)) :
    token i = token' i := by
  cases ha with
  | same => rfl
  | spent => rfl
  | given k =>
    by_cases hik : i = k
    · subst hik
      rw [Function.update_self] at h
      exact absurd rfl h.ne_draw
    · rw [Function.update_of_ne hik]

/-- The source numbers a table: as long as it lasts, every object there has a token. -/
structure Numbers (s : TokenSource) (size : Nat) (token : Nat → Token) : Prop where
  started : s.upcoming ≠ 0
  numbered : s.upcoming ≠ limit → ∀ i < size, token i ≠ 0

namespace Numbers

variable {size size' : Nat}

lemma empty (token : Nat → Token) : ({} : TokenSource).Numbers 0 token where
  started := by decide
  numbered _ i hi := absurd hi (Nat.not_lt_zero i)

/-- Every object has the token it had, or the one that is next. -/
lemma advance (hn : s.Numbers size token) (hs : s' = s ∨ s' = s.draw.2)
    (hnew : ∀ i < size', token' i = s.draw.1 ∨ i < size ∧ token' i = token i) :
    s'.Numbers size' token' where
  started := by
    rcases hs with rfl | rfl
    · exact hn.started
    · exact upcoming_draw_ne_zero hn.started
  numbered hlast i hi := by
    -- a source that has come to its end stays there
    have hbefore : s.upcoming ≠ limit := by
      rcases hs with rfl | rfl
      · exact hlast
      · exact ne_limit_of_issued (fun _ ht => ht.draw) hlast
    rcases hnew i hi with hdrawn | ⟨hold, hsame⟩
    · rw [hdrawn, draw_of_ne hbefore]
      exact hn.started
    · rw [hsame]
      exact hn.numbered hbefore i hold

end Numbers

end TokenSource

/-! ### Tables -/

section Tables

variable {α : Type} (xs : Array α) (x d : α) (i : Nat)

lemma getD_push : (xs.push x).getD i d = if i = xs.size then x else xs.getD i d := by
  rw [Array.getD_eq_getD_getElem?, Array.getElem?_push, Array.getD_eq_getD_getElem?]
  split <;> rfl

lemma getD_modify (k : Nat) (f : α → α) :
    (xs.modify k f).getD i d = if k = i ∧ i < xs.size then f (xs.getD i d) else xs.getD i d := by
  simp only [Array.getD_eq_getD_getElem?, Array.getElem?_modify]
  by_cases hk : k = i
  · by_cases hi : i < xs.size <;> simp [hk, hi]
  · simp [hk]

lemma getD_setIfInBounds (k : Nat) :
    (xs.setIfInBounds k x).getD i d = if k = i ∧ i < xs.size then x else xs.getD i d := by
  simp only [Array.getD_eq_getD_getElem?, Array.getElem?_setIfInBounds]
  by_cases hk : k = i
  · by_cases hi : i < xs.size <;> simp [hk, hi]
  · simp [hk]

variable {xs x d i} {k : Nat} {f : α → α} {g : α → Token} {s : TokenSource}

lemma getD_of_size_le (h : xs.size ≤ i) : xs.getD i d = d := by
  rw [Array.getD_eq_getD_getElem?, Array.getElem?_eq_none h, Option.getD_none]

/-- A new object takes the token just drawn. -/
lemma advance_push (hx : g x = s.draw.1) :
    s.Advance (fun i => g (xs.getD i d)) s.draw.2 (fun i => g ((xs.push x).getD i d)) := by
  have htoken : (fun i => g ((xs.push x).getD i d)) =
      Function.update (fun i => g (xs.getD i d)) xs.size s.draw.1 := by
    funext i
    rw [getD_push, Function.update_apply]
    split
    · exact hx
    · rfl
  rw [htoken]
  exact .given _

lemma numbers_push (hn : s.Numbers xs.size fun i => g (xs.getD i d)) (hx : g x = s.draw.1) :
    s.draw.2.Numbers (xs.push x).size fun i => g ((xs.push x).getD i d) := by
  refine hn.advance (.inr rfl) fun i hi => ?_
  rw [Array.size_push] at hi
  rw [getD_push]
  split
  · exact .inl hx
  · exact .inr ⟨by omega, rfl⟩

lemma getD_push_of_issued (hx : g x = s.draw.1) (h : s.Issued (g ((xs.push x).getD i d))) :
    (xs.push x).getD i d = xs.getD i d := by
  rw [getD_push] at h ⊢
  split
  · next hi =>
    rw [if_pos hi, hx] at h
    exact absurd rfl h.ne_draw
  · rfl

/-- An object takes the token just drawn, if it is there. -/
lemma advance_modify (hf : g (f (xs.getD k d)) = s.draw.1) :
    s.Advance (fun i => g (xs.getD i d)) s.draw.2 (fun i => g ((xs.modify k f).getD i d)) := by
  by_cases hk : k < xs.size
  · have htoken : (fun i => g ((xs.modify k f).getD i d)) =
        Function.update (fun i => g (xs.getD i d)) k s.draw.1 := by
      funext i
      rw [getD_modify, Function.update_apply]
      by_cases hi : i = k
      · subst hi
        rw [if_pos ⟨rfl, hk⟩, if_pos rfl, hf]
      · rw [if_neg (fun hc => hi hc.1.symm), if_neg hi]
    rw [htoken]
    exact .given k
  · have htoken : (fun i => g ((xs.modify k f).getD i d)) = fun i => g (xs.getD i d) := by
      funext i
      rw [getD_modify, if_neg]
      exact fun hc => hk (hc.1 ▸ hc.2)
    rw [htoken]
    exact .spent

lemma getD_modify_of_issued (hf : g (f (xs.getD k d)) = s.draw.1)
    (h : s.Issued (g ((xs.modify k f).getD i d))) : (xs.modify k f).getD i d = xs.getD i d := by
  rw [getD_modify] at h ⊢
  split
  · next hc =>
    rw [if_pos hc, ← hc.1, hf] at h
    exact absurd rfl h.ne_draw
  · rfl

end Tables

namespace Heap

/-- The tokens of the four kinds of objects, by their places in the tables. -/
def keysToken (h : Heap) (n : Nat) : Token := (h.namespaceAt n).keysVersion

def shapeToken (h : Heap) (s : Nat) : Token := (h.shapeAt s).id

def functionToken (h : Heap) (i : Nat) : Token := (h.functions.getD i default).version

def builtinToken (h : Heap) (i : Nat) : Token := (h.builtins.getD i default).id

/-- Tokens other than `0` name single objects. -/
structure Versioned (h : Heap) : Prop where
  keys : h.tokens.keys.Covers h.keysToken
  shapes : h.tokens.shapes.Covers h.shapeToken
  functions : h.tokens.functions.Covers h.functionToken
  builtins : h.tokens.builtins.Covers h.builtinToken
  /-- The code of a function is there. -/
  code : ∀ i < h.functions.size, (h.functions.getD i default).unit < h.units.size

/-- What a token stood for in one heap, it stands for in the other. -/
structure Later (h h' : Heap) : Prop where
  keysIssued : ∀ t, h.tokens.keys.Issued t → h'.tokens.keys.Issued t
  shapesIssued : ∀ t, h.tokens.shapes.Issued t → h'.tokens.shapes.Issued t
  functionsIssued : ∀ t, h.tokens.functions.Issued t → h'.tokens.functions.Issued t
  builtinsIssued : ∀ t, h.tokens.builtins.Issued t → h'.tokens.builtins.Issued t
  keys : ∀ n, h.tokens.keys.Issued (h'.keysToken n) →
    h.keysToken n = h'.keysToken n ∧ (h'.namespaceAt n).indexOf? = (h.namespaceAt n).indexOf?
  shapes : ∀ s, h.tokens.shapes.Issued (h'.shapeToken s) →
    h.shapeToken s = h'.shapeToken s ∧ (h'.shapeAt s).keys = (h.shapeAt s).keys
  functions : ∀ i, h.tokens.functions.Issued (h'.functionToken i) →
    h'.functions.getD i default = h.functions.getD i default
  builtins : ∀ i, h.tokens.builtins.Issued (h'.builtinToken i) →
    h'.builtins.getD i default = h.builtins.getD i default
  grows : h.units.size ≤ h'.units.size
  units : ∀ u < h.units.size, h'.unitAt u = h.unitAt u

variable {h h' h'' : Heap}

namespace Later

lemma refl (h : Heap) : Later h h where
  keysIssued _ ht := ht
  shapesIssued _ ht := ht
  functionsIssued _ ht := ht
  builtinsIssued _ ht := ht
  keys _ _ := ⟨rfl, rfl⟩
  shapes _ _ := ⟨rfl, rfl⟩
  functions _ _ := rfl
  builtins _ _ := rfl
  grows := le_rfl
  units _ _ := rfl

lemma trans (a : Later h h') (b : Later h' h'') : Later h h'' where
  keysIssued t ht := b.keysIssued t (a.keysIssued t ht)
  shapesIssued t ht := b.shapesIssued t (a.shapesIssued t ht)
  functionsIssued t ht := b.functionsIssued t (a.functionsIssued t ht)
  builtinsIssued t ht := b.builtinsIssued t (a.builtinsIssued t ht)
  keys n hn := by
    obtain ⟨h1, h2⟩ := b.keys n (a.keysIssued _ hn)
    obtain ⟨h3, h4⟩ := a.keys n (h1 ▸ hn)
    exact ⟨h3.trans h1, h2.trans h4⟩
  shapes s hs := by
    obtain ⟨h1, h2⟩ := b.shapes s (a.shapesIssued _ hs)
    obtain ⟨h3, h4⟩ := a.shapes s (h1 ▸ hs)
    exact ⟨h3.trans h1, h2.trans h4⟩
  functions i hi := by
    have h1 := b.functions i (a.functionsIssued _ hi)
    exact h1.trans (a.functions i (by rw [functionToken, ← h1]; exact hi))
  builtins i hi := by
    have h1 := b.builtins i (a.builtinsIssued _ hi)
    exact h1.trans (a.builtins i (by rw [builtinToken, ← h1]; exact hi))
  grows := a.grows.trans b.grows
  units u hu := (b.units u (lt_of_lt_of_le hu a.grows)).trans (a.units u hu)

end Later

/-- What a change of a heap keeps. -/
def Evolves (h h' : Heap) : Prop := h.Versioned → h'.Versioned ∧ Later h h'

lemma Evolves.refl (h : Heap) : Evolves h h := fun hv => ⟨hv, .refl h⟩

lemma Evolves.trans (a : Evolves h h') (b : Evolves h' h'') : Evolves h h'' := fun hv =>
  have ha := a hv
  have hb := b ha.1
  ⟨hb.1, ha.2.trans hb.2⟩

/-- What a single operation does to the tables; what is left out stays as it is. -/
structure Moves (h h' : Heap) : Prop where
  keys : h.tokens.keys.Advance h.keysToken h'.tokens.keys h'.keysToken := by exact .same
  shapes : h.tokens.shapes.Advance h.shapeToken h'.tokens.shapes h'.shapeToken := by exact .same
  functions : h.tokens.functions.Advance h.functionToken h'.tokens.functions h'.functionToken := by
    exact .same
  builtins : h.tokens.builtins.Advance h.builtinToken h'.tokens.builtins h'.builtinToken := by
    exact .same
  keysSame : ∀ n, h.tokens.keys.Issued (h'.keysToken n) →
    (h'.namespaceAt n).indexOf? = (h.namespaceAt n).indexOf? := by exact fun _ _ => rfl
  shapesSame : ∀ s, h.tokens.shapes.Issued (h'.shapeToken s) →
    (h'.shapeAt s).keys = (h.shapeAt s).keys := by exact fun _ _ => rfl
  functionsSame : ∀ i, h.tokens.functions.Issued (h'.functionToken i) →
    h'.functions.getD i default = h.functions.getD i default := by exact fun _ _ => rfl
  builtinsSame : ∀ i, h.tokens.builtins.Issued (h'.builtinToken i) →
    h'.builtins.getD i default = h.builtins.getD i default := by exact fun _ _ => rfl
  grows : h.units.size ≤ h'.units.size := by exact le_rfl
  units : ∀ u < h.units.size, h'.unitAt u = h.unitAt u := by exact fun _ _ => rfl
  code : (∀ i < h.functions.size, (h.functions.getD i default).unit < h.units.size) →
    ∀ i < h'.functions.size, (h'.functions.getD i default).unit < h'.units.size := by exact id

lemma Moves.evolves (m : Moves h h') : Evolves h h' := by
  refine fun hv => ⟨⟨?_, ?_, ?_, ?_, m.code hv.code⟩, ?_⟩
  · exact m.keys.covers hv.keys
  · exact m.shapes.covers hv.shapes
  · exact m.functions.covers hv.functions
  · exact m.builtins.covers hv.builtins
  · exact
      { keysIssued := fun _ ht => m.keys.issued ht
        shapesIssued := fun _ ht => m.shapes.issued ht
        functionsIssued := fun _ ht => m.functions.issued ht
        builtinsIssued := fun _ ht => m.builtins.issued ht
        keys := fun n hn => ⟨m.keys.back hn, m.keysSame n hn⟩
        shapes := fun s hs => ⟨m.shapes.back hs, m.shapesSame s hs⟩
        functions := m.functionsSame
        builtins := m.builtinsSame
        grows := m.grows
        units := m.units }

/-! ### The operations -/

lemma newNamespace_moves (h : Heap) : Moves h h.newNamespace.2 where
  keys := advance_push rfl
  keysSame n hn := congrArg Namespace.indexOf? (getD_push_of_issued rfl hn)

lemma assign_moves (h : Heap) (n : Nat) (key : String) (value : Value) :
    Moves h (h.assign n key value) := by
  unfold assign
  split
  · next i hi =>
    -- a bound name keeps its slot, and the keys their version
    have hget : ∀ k, ((h.namespaces.modify n (·.rebind i value)).getD k default).keysVersion =
          h.keysToken k ∧
        ((h.namespaces.modify n (·.rebind i value)).getD k default).indexOf? =
          (h.namespaceAt k).indexOf? := by
      intro k
      rw [getD_modify]
      split <;> exact ⟨rfl, rfl⟩
    refine { keys := ?_, keysSame := fun k _ => (hget k).2 }
    have htoken : h.keysToken =
        fun k => ((h.namespaces.modify n (·.rebind i value)).getD k default).keysVersion :=
      funext fun k => (hget k).1.symm
    show h.tokens.keys.Advance h.keysToken h.tokens.keys _
    rw [htoken]
    exact .same
  · exact
      { keys := advance_modify rfl
        keysSame := fun k hk => congrArg Namespace.indexOf? (getD_modify_of_issued rfl hk) }

lemma remove_moves (h : Heap) (n : Nat) (key : String) : Moves h (h.remove n key).2 := by
  unfold remove
  split
  · exact {}
  · exact
      { keys := advance_modify rfl
        keysSame := fun k hk => congrArg Namespace.indexOf? (getD_modify_of_issued rfl hk) }

lemma newShape_moves (h : Heap) (keys : Array String) : Moves h (h.newShape keys).2 where
  shapes := advance_push rfl
  shapesSame s hs := congrArg Shape.keys (getD_push_of_issued rfl hs)

/-- The heap after one shape has been given a transition. -/
def withTransition (h : Heap) (s : Nat) (key : String) (next : Nat) : Heap :=
  { h with shapes := h.shapes.modify s fun x =>
      { x with transitions := (key, next) :: x.transitions } }

lemma shapeAt_withTransition (h : Heap) (s : Nat) (key : String) (next k : Nat) :
    (h.withTransition s key next).shapeAt k =
      if s = k ∧ k < h.shapes.size then
        { h.shapeAt k with transitions := (key, next) :: (h.shapeAt k).transitions }
      else h.shapeAt k :=
  getD_modify ..

lemma size_shapes_withTransition (h : Heap) (s : Nat) (key : String) (next : Nat) :
    (h.withTransition s key next).shapes.size = h.shapes.size :=
  Array.size_modify ..

/-- A new transition is no new key. -/
lemma withTransition_same (h : Heap) (s : Nat) (key : String) (next k : Nat) :
    ((h.withTransition s key next).shapeAt k).id = (h.shapeAt k).id ∧
      ((h.withTransition s key next).shapeAt k).keys = (h.shapeAt k).keys := by
  rw [shapeAt_withTransition]
  split <;> exact ⟨rfl, rfl⟩

lemma withTransition_moves (h : Heap) (s : Nat) (key : String) (next : Nat) :
    Moves h (h.withTransition s key next) := by
  have hsame := h.withTransition_same s key next
  refine { shapes := ?_, shapesSame := fun k _ => (hsame k).2 }
  have htoken : h.shapeToken = (h.withTransition s key next).shapeToken :=
    funext fun k => (hsame k).1.symm
  show h.tokens.shapes.Advance h.shapeToken h.tokens.shapes _
  rw [htoken]
  exact .same

/-- Where appending a field leads: along a transition, or to a new shape with a transition to it,
or nowhere. -/
lemma extendShape_cases (h : Heap) (s : Nat) (key : String) :
    (∃ next, (h.shapeAt s).next? key = some next ∧ h.extendShape s key = (next, h)) ∨
    (s < h.shapes.size ∧ h.extendShape s key =
      (h.shapes.size,
        (h.newShape ((h.shapeAt s).keys.push key)).2.withTransition s key h.shapes.size)) ∨
    (h.shapes.size ≤ s ∧ h.extendShape s key = (s, h)) := by
  unfold extendShape
  rcases hn : (h.shapeAt s).next? key with _ | next
  · by_cases hs : s < h.shapes.size
    · refine .inr (.inl ⟨hs, ?_⟩)
      simp only [if_pos hs]
      rfl
    · refine .inr (.inr ⟨by omega, ?_⟩)
      simp only [if_neg hs]
  · exact .inl ⟨next, rfl, rfl⟩

lemma extendShape_evolves (h : Heap) (s : Nat) (key : String) :
    Evolves h (h.extendShape s key).2 := by
  rcases extendShape_cases h s key with ⟨next, -, he⟩ | ⟨-, he⟩ | ⟨-, he⟩
  · rw [he]; exact .refl h
  · rw [he]; exact (newShape_moves h _).evolves.trans (withTransition_moves ..).evolves
  · rw [he]; exact .refl h

lemma setField_evolves (h : Heap) (o : Ref .inst) (key : String) (value : Value) :
    Evolves h (h.setField o key value) := by
  unfold setField
  split
  · exact Moves.evolves {}
  · exact (extendShape_evolves h _ key).trans (Moves.evolves {})

lemma newClass_evolves (h : Heap) (name : String) : Evolves h (h.newClass name).2 :=
  (newNamespace_moves h).evolves.trans
    ((newShape_moves h.newNamespace.2 #[]).evolves.trans (Moves.evolves {}))

lemma newUnit_moves (h : Heap) (u : CodeUnit) : Moves h (h.newUnit u).2 where
  grows := by simp [newUnit]
  units n hn := by
    show (h.units.push u).getD n default = h.units.getD n default
    rw [getD_push, if_neg (by omega)]
  code hc i hi := by
    have := hc i hi
    show (h.functions.getD i default).unit < (h.units.push u).size
    rw [Array.size_push]
    omega

lemma newFunction_moves (h : Heap) {unit : Nat} (hu : unit < h.units.size) (globals : Ref .mod)
    (defaults : List Value) : Moves h (h.newFunction unit globals defaults).2 where
  functions := advance_push rfl
  functionsSame i hi := getD_push_of_issued (g := Function.version) rfl hi
  code hc i hi := by
    show ((h.functions.push _).getD i default).unit < h.units.size
    rw [getD_push]
    split
    · exact hu
    · next hne =>
      refine hc i ?_
      have : i < h.functions.size + 1 := by simpa [newFunction] using hi
      omega

lemma newBuiltin_moves (h : Heap) (name : String) (arity : Option UInt8) (p : Procedure) :
    Moves h (h.newBuiltin name arity p).2 where
  builtins := advance_push rfl
  builtinsSame i hi := getD_push_of_issued (g := Builtin.id) rfl hi

end Heap

end AdaptiveVM
