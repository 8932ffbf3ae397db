import AdaptiveVM.Proofs.Budget
import AdaptiveVM.Proofs.Equivalence
import AdaptiveVM.Proofs.Isolation

/-!
Members that find the words of another.

The members of a family share the words of a site, and each reads them in its own way. A member that
finds what a sibling was given compares tokens that were never meant for it. Most such guards fail,
or hold where the answer is right all the same. But a token says nothing of its kind: the shape of
an instance and the keys of a namespace are numbered apart, from one on, so a member that takes one
for the other can hit and give a value that has nothing to do with the name. Likewise a global of
the module is looked for in a slot that was meant for the builtins. These pairs of members are all
there are.
-/

namespace AdaptiveVM

/-! ### Heaps go along -/

/-- Whatever becomes of a heap, its tokens keep their meaning. -/
lemma Heap.Becomes.later {h h' : Heap} (hb : h.Becomes h') (hw : h.WellFormed) :
    h'.WellFormed ∧ Later h h' := by
  induction hb with
  | same => exact ⟨hw, .refl h⟩
  | served _ r ih =>
    obtain ⟨hw', hl⟩ := (serve_develops _ r).keeps ih.1
    exact ⟨hw', ih.2.trans hl⟩
  | @drawn h' _ s ih =>
    have hd : h'.Develops { h' with sources := s } := .of_moves {} rfl rfl rfl rfl
    obtain ⟨hw', hl⟩ := hd.keeps ih.1
    exact ⟨hw', ih.2.trans hl⟩
  | coded _ u ih =>
    obtain ⟨hw', hl⟩ := newUnit_keeps ih.1 u
    exact ⟨hw', ih.2.trans hl⟩

/-- A shape without a token is none that has been made. -/
lemma Heap.Stamped.indexOf?_of_null {h : Heap} (hh : h.Stamped)
    (hl : h.tokens.shapes.upcoming ≠ TokenSource.limit) {s : Nat} (hs : (h.shapeAt s).id = 0)
    (key : String) : (h.shapeAt s).indexOf? key = none := by
  have hsize : h.shapes.size ≤ s := by
    by_contra hlt
    exact hh.numbered hl s (Nat.not_le.mp hlt) hs
  rw [shapeAt, getD_of_size_le hsize]
  exact Array.findIdx?_empty

/-! ### What the second word still says -/

/-- A member for a global of the module has left no token of the builtins, and a site that loads an
attribute has only ever been given shapes without a field of the name. -/
def QuickOp.Recalls (h : Heap) (u : CodeUnit) (arg : UInt8) (v : VersionPair) : QuickOp → Prop
  | .loadGlobal .mod => v.second = 0
  | .loadAttr _ => ∀ key, u.name? arg = some key → v.first = 0 ∨ h.ShapeTells v.first key none
  | _ => True

namespace QuickOp

variable {h h' : Heap} {u : CodeUnit} {arg : UInt8} {v : VersionPair} {op : QuickOp}

lemma Recalls.later (hr : op.Recalls h u arg v) (hl : Heap.Later h h') :
    op.Recalls h' u arg v := by
  cases op with
  | loadGlobal member => cases member <;> exact hr
  | loadAttr member => exact fun key hkey => (hr key hkey).imp_right fun ht => ht.later hl
  | _ => trivial

/-- Of the other families nothing is asked. -/
lemma recalls_of_family {fam : Family} (hop : op.family? = some fam) (hg : fam ≠ .loadGlobal)
    (ha : fam ≠ .loadAttr) : op.Recalls h u arg v := by
  cases op with
  | loadGlobal member => exact absurd (Option.some.inj hop).symm hg
  | loadAttr member => exact absurd (Option.some.inj hop).symm ha
  | _ => trivial

/-- A site that falls back knows no more than before. -/
lemma Recalls.adaptive {fam : Family} (hr : op.Recalls h u arg v) (hop : op.family? = some fam) :
    (QuickOp.adaptive fam).Recalls h u arg v := by
  cases op with
  | plain op => cases hop
  | loadAttr member =>
    cases hop
    exact hr
  | _ =>
    cases hop
    trivial

end QuickOp

namespace Specialize

/-- An attempt on a global of the module leaves no token of the builtins. -/
lemma second_pair_loadGlobal {globals builtins : Namespace} {key : String} (v : VersionPair)
    (hm : (loadGlobal globals builtins key).verdict = .ok (.loadGlobal .mod)) :
    ((loadGlobal globals builtins key).pair v).second = 0 := by
  rcases loadGlobal_cases globals builtins key with
    ⟨reason, he⟩ | ⟨index, -, -, he⟩ | ⟨index, -, -, -, -, he⟩
  · rw [he] at hm
    cases hm
  · rw [he]
    rfl
  · rw [he] at hm
    cases hm

/-- An attempt on an attribute leaves the second word alone, or a shape without the field in it. -/
lemma first_pair_loadAttr {h : Heap} (hv : h.Versioned) (receiver : Value) (key : String)
    (v : VersionPair) : (loadAttr h receiver key).pair v = v ∨
      h.ShapeTells ((loadAttr h receiver key).pair v).first key none := by
  unfold loadAttr
  split
  · next o =>
    split
    · next i _ =>
      rcases instanceValue_cases (h.shapeOf o).id i with ⟨reason, he⟩ | ⟨index, -, -, he⟩
      · rw [he]
        exact .inl rfl
      · rw [he]
        exact .inl rfl
    · next hi =>
      rcases classAttribute_cases (h.shapeOf o).id (h.attributesOf (h.instanceAt o).cls) key with
        ⟨reason, he⟩ | ⟨guard, -, he⟩ | ⟨index, hs, -, -, he⟩
      · rw [he]
        exact .inl rfl
      · rw [he]
        exact .inl rfl
      · rw [he]
        exact .inr (hv.shapeTells hs hi)
  · next m =>
    rcases moduleAttribute_cases (h.namespaceAt m.id) key with ⟨reason, he⟩ | ⟨index, -, -, he⟩
    · rw [he]
      exact .inl rfl
    · rw [he]
      exact .inl rfl
  · exact .inl rfl

/-- The second word is as before, or a class has been found. -/
lemma loadAttr_recalls {h : Heap} (hv : h.Versioned) {u : CodeUnit} {arg : UInt8} {key : String}
    (name : u.name? arg = some key) {m : LoadAttrMember} {v : VersionPair}
    (hr : (QuickOp.loadAttr m).Recalls h u arg v) (receiver : Value) (m' : LoadAttrMember) :
    (QuickOp.loadAttr m').Recalls h u arg ((loadAttr h receiver key).pair v) := by
  intro key' hkey'
  cases name.symm.trans hkey'
  rcases first_pair_loadAttr hv receiver key v with hkept | htells
  · rw [hkept]
    exact hr key name
  · exact .inr htells

end Specialize

namespace Quickened

variable {h h' : Heap} {u : CodeUnit} {q : Quickened} {p : Nat} {fam : Family} {t : Trial}

def Recalls (q : Quickened) (h : Heap) (u : CodeUnit) : Prop :=
  ∀ p, (q.instrAt p).op.Recalls h u (q.entryAt p).arg (q.versionsAt p)

lemma Recalls.later (hr : q.Recalls h u) (hl : Heap.Later h h') : q.Recalls h' u :=
  fun p => (hr p).later hl

/-- The second word of a new site is null. -/
lemma versionsAt_ofCode {code : Array Instr} (hp : (ofCode code).hasEntries p = true) :
    (ofCode code).versionsAt p = {} := by
  have hnull : (ofCode code).word p 1 = 0 := by
    refine getD_cache_ofCode fun p' hp' => ?_
    by_cases hne : p = p'
    · rw [hne]
      exact Nat.succ_ne_self _
    · have hapart : base p ((ofCode code).instrAt p) + 1 ≠ base p' ((ofCode code).instrAt p') + 0 :=
        (laid_ofCode code).ne hp hp' hne (by decide) (by decide)
      exact hapart
  rw [versionsAt, hnull]
  rfl

lemma recalls_ofCode (code : Array Instr) : (ofCode code).Recalls h u := by
  intro p
  have hadaptive : ((ofCode code).instrAt p).op.family?.isSome = true →
      ((ofCode code).instrAt p).op.isAdaptive = true :=
    isAdaptive_ofCode
  have hnull : (ofCode code).hasEntries p = true → (ofCode code).versionsAt p = {} :=
    versionsAt_ofCode
  rcases hop : ((ofCode code).instrAt p).op with op | member | member | member | member
  · trivial
  · rw [hop] at hadaptive
    cases member with
    | mod => cases hadaptive rfl
    | _ => trivial
  · rw [hnull (by rw [hasEntries, hop]; rfl)]
    exact fun _ _ => .inl rfl
  · trivial
  · trivial

/-- The attempt that an adaptive site finds, whatever becomes of it. -/
lemma attempt_recalls (hv : h.Versioned) {attempt : Attempt}
    (hf : Machine.Finds h u q p fam (.adaptive attempt))
    (hr : (q.instrAt p).op.Recalls h u (q.entryAt p).arg (q.versionsAt p)) :
    (q.instrAt p).op.Recalls h u (q.entryAt p).arg (attempt.pair (q.versionsAt p)) ∧
      ∀ op, attempt.verdict = .ok op →
        op.Recalls h u (q.entryAt p).arg (attempt.pair (q.versionsAt p)) := by
  have hmember := hf.fits.2.member
  have hfamily := hf.family
  generalize ht : Trial.adaptive attempt = t at hf
  cases hf with
  | @loadGlobal member key globals builtins holds hop name =>
    cases member with
    | adaptive =>
      cases ht
      rw [hop]
      refine ⟨trivial, fun op hverdict => ?_⟩
      have hfam := (hmember op hverdict).1
      cases op with
      | loadGlobal member =>
        cases member with
        | mod => exact Specialize.second_pair_loadGlobal _ hverdict
        | _ => trivial
      | _ => cases hfam
    | _ => cases ht
  | @loadAttr member key receiver holds hop name =>
    cases member with
    | adaptive =>
      cases ht
      rw [hop] at hr ⊢
      refine ⟨Specialize.loadAttr_recalls hv name hr receiver _, fun op hverdict => ?_⟩
      have hfam := (hmember op hverdict).1
      cases op with
      | loadAttr member => exact Specialize.loadAttr_recalls hv name hr receiver member
      | _ => cases hfam
    | _ => cases ht
  | call callee holds hop =>
    exact ⟨QuickOp.recalls_of_family hfamily nofun nofun,
      fun op hverdict => QuickOp.recalls_of_family (hmember op hverdict).1 nofun nofun⟩
  | binaryAdd left right holds hop =>
    exact ⟨QuickOp.recalls_of_family hfamily nofun nofun,
      fun op hverdict => QuickOp.recalls_of_family (hmember op hverdict).1 nofun nofun⟩

/-- What an execution of a site leaves in its second word. -/
lemma event_recalls (hv : h.Versioned) (hq : q.Laid) (hf : Machine.Finds h u q p fam t)
    (hp : q.hasEntries p = true)
    (hr : (q.instrAt p).op.Recalls h u (q.entryAt p).arg (q.versionsAt p)) (c : Config)
    (n : UInt8) :
    ((t.event c n).member fam (q.instrAt p).op).Recalls h u (q.entryAt p).arg
      ((q.apply p fam (t.event c n)).versionsAt p) := by
  rw [versionsAt_apply hq hf.family (Trial.event_fits hf.fits) hp]
  cases t with
  | adaptive attempt =>
    obtain ⟨hrefused, hchosen⟩ := attempt_recalls hv hf hr
    rcases Trial.event_adaptive_cases c n attempt with
      ⟨-, he⟩ | ⟨-, ⟨op, hop, he⟩ | ⟨reason, -, he⟩⟩
    · rw [he]
      exact hr
    · rw [he]
      exact hchosen op hop
    · rw [he]
      exact hrefused
  | guarded holds =>
    rcases Trial.event_guarded_cases c n holds with ⟨-, he⟩ | ⟨-, -, he⟩ | ⟨-, -, he⟩
    · rw [he]
      exact hr
    · rw [he]
      exact hr
    · rw [he]
      exact hr.adaptive hf.family

lemma Recalls.apply (hr : q.Recalls h u) (hv : h.Versioned) (hq : q.Laid)
    (hf : Machine.Finds h u q p fam t) (c : Config) (n : UInt8) :
    (q.apply p fam (t.event c n)).Recalls h u := by
  have hev : (t.event c n).Fits fam := Trial.event_fits hf.fits
  have hwords := (apply_touches hf.family hev).forall_words hq
    (P := fun op e v => op.Recalls h u e.arg v) (fun p' _ => hr p') fun hp => by
      rw [op_apply hf.family, arg_entryAt_apply hq hf.family hev hp]
      exact event_recalls hv hq hf hp (hr p) c n
  intro p'
  by_cases hown : (q.apply p fam (t.event c n)).hasEntries p' = true
  · exact hwords p' hown
  · rw [hasEntries] at hown
    rcases hop : ((q.apply p fam (t.event c n)).instrAt p').op with op | m | m | m | m
    · trivial
    · rw [hop] at hown
      exact absurd rfl hown
    · rw [hop] at hown
      exact absurd rfl hown
    · trivial
    · trivial

end Quickened

namespace Process

variable {p : Process} {u : Nat} {q : Quickened}

def Recalls (p : Process) : Prop :=
  ∀ u q, (p.world.attachmentAt u).quickened = some q →
    q.Recalls p.world.heap (p.world.heap.unitAt u)

/-- A stream that an action leaves where there was none is new. -/
lemma perform_fresh (hp : p.world.Sound) (a : Action)
    (hnone : (p.world.attachmentAt u).quickened = none)
    (hq : ((p.perform a).world.attachmentAt u).quickened = some q) :
    ∃ code, q = .ofCode code := by
  have hnew {p₀ : Process} (hs : Streams p₀ (p.perform a))
      (hnone₀ : (p₀.world.attachmentAt u).quickened = none) : ∃ code, q = .ofCode code := by
    rcases hs u with hsame | ⟨-, code, hcode⟩
    · rw [hsame, hnone₀] at hq
      cases hq
    · exact ⟨code, Option.some.inj (hq.symm.trans hcode)⟩
  rcases perform_visits hp a with ⟨-, hs⟩ | ⟨k, u', i, q', fam, t, -, -, hq', -, -, hs, -⟩
  · exact hnew hs hnone
  · -- a site that is executed is in another unit, since this one has no stream
    refine hnew hs ?_
    have hne : u' ≠ u := by
      rintro rfl
      rw [hnone] at hq'
      cases hq'
    rw [quickened_visited hq', if_neg hne, hnone]

lemma perform_recalls (hp : p.world.Sound) (hr : p.Recalls) (a : Action) :
    (p.perform a).Recalls := by
  intro u q' hq'
  have hbecomes := perform_becomes p a
  have hlater := (hbecomes.later hp.heap).2
  rcases hq : (p.world.attachmentAt u).quickened with _ | q
  · obtain ⟨code, rfl⟩ := perform_fresh hp a hq hq'
    exact Quickened.recalls_ofCode code
  · have hthere : u < p.world.heap.units.size := by
      rw [← hp.size]
      exact lt_size_of_quickened hq
    rw [(hbecomes.unitAt hthere).2]
    rcases perform_stream hp a hq with ⟨-, hafter⟩ | ⟨k, i, fam, t, -, hf, -, hafter, -⟩
    · rw [show q' = q from Option.some.inj (hq'.symm.trans hafter)]
      exact (hr u q hq).later hlater
    · rw [show q' = _ from Option.some.inj (hq'.symm.trans hafter)]
      have hlaid := (hp.streams u q hq).erases.laid
      exact ((hr u q hq).apply hp.heap.versioned hlaid hf _ _).later hlater

/-- **What second words say lasts**, whatever happens. -/
lemma after_recalls (hp : p.world.Sound) (hr : p.Recalls) (as : List Action) :
    (p.after as).Recalls := by
  induction as generalizing p with
  | nil => exact hr
  | cons a as ih => exact ih (perform_sound hp a) (perform_recalls hp hr a)

lemma recalls_empty : ({} : Process).Recalls := by
  intro u q hq
  rw [World.attachmentAt, getD_of_size_le (by simp)] at hq
  cases hq

end Process

/-! ### Sites that are specialized -/

/-- What stands at a site: its member and its two words. -/
structure Site where
  op : QuickOp
  entry : Entry
  versions : VersionPair
  deriving DecidableEq

namespace Process

def siteAt? (p : Process) (u i : Nat) : Option Site :=
  (p.world.attachmentAt u).quickened.map fun q =>
    ⟨(q.instrAt i).op, q.entryAt i, q.versionsAt i⟩

/-- An action specializes the site of a name, and this is what it leaves there. -/
structure Specializes (p : Process) (a : Action) (u i : Nat) (key : String) (s : Site) : Prop where
  before : (p.siteAt? u i).any (·.op.isAdaptive) = true
  leaves : (p.perform a).siteAt? u i = some s
  specialized : s.op.isAdaptive = false
  name : ((p.perform a).world.heap.unitAt u).name? s.entry.arg = some key

/-- What the words of a site say when it is specialized, they say ever after. -/
lemma Specializes.known {as : List Action} {a : Action} {u i : Nat} {key : String} {s : Site}
    (hs : (({} : Process).after as).Specializes a u i key s) (bs : List Action) :
    let p := (({} : Process).after as).perform a
    let h := (p.after bs).world.heap
    s.op.Trusted h (p.world.heap.unitAt u) s.entry s.versions ∧
      s.op.Recalls h (p.world.heap.unitAt u) s.entry.arg s.versions := by
  intro p h
  have hbefore : (({} : Process).after as).world.Sound := after_sound World.sound_empty as
  have hsound : p.world.Sound := perform_sound hbefore a
  have hrecalls : p.Recalls :=
    perform_recalls hbefore (after_recalls World.sound_empty recalls_empty as) a
  have hlater := ((after_becomes p bs).later hsound.heap).2
  obtain ⟨q, hq, rfl⟩ := Option.map_eq_some_iff.mp hs.leaves
  exact ⟨((hsound.streams u q hq).trusted i).later hsound.heap.versioned hlater,
    (hrecalls u q hq i).later hlater⟩

lemma stamped_after (as : List Action) : (({} : Process).after as).world.heap.Stamped :=
  Heap.Stamped.empty.becomes (after_becomes {} as)

end Process

/-! ### Globals -/

namespace LoadGlobalMember

/-- A member does no harm with the words that a site was left with when it was specialized to
another: whatever happens in between, its guard fails, or it gives what the name stands for. The
counter may have moved. -/
def Bears (m m' : LoadGlobalMember) : Prop :=
  ∀ (as : List Action) (a : Action) (bs : List Action) (u i : Nat) (key : String) (e : Entry)
    (v : VersionPair) (n : UInt8) (globals builtins : Nat) (value : Value),
    let p := ({} : Process).after as
    let h := ((p.perform a).after bs).world.heap
    p.Specializes a u i key ⟨.loadGlobal m', e, v⟩ →
      m.probe { e with counter := n } v (h.namespaceAt globals) (h.namespaceAt builtins) =
        some value →
      Operation.loadGlobal (h.namespaceAt globals) (h.namespaceAt builtins) key = .ok value

/-- A member for a builtin never hits with the words of one for a global of the module. -/
lemma probe_builtin_of_second {v : VersionPair} (hv : v.second = 0) (e : Entry)
    (globals builtins : Namespace) : builtin.probe e v globals builtins = none :=
  if_neg fun hc => hc.2.1 hv

lemma bears_self (m : LoadGlobalMember) : m.Bears m := by
  intro as a bs u i key e v n globals builtins value p h hs hp
  exact probe_eq ((hs.known bs).1 key hs.name) hp

lemma builtin_bears_mod : builtin.Bears mod := by
  intro as a bs u i key e v n globals builtins value p h hs hp
  rw [probe_builtin_of_second (hs.known bs).2] at hp
  cases hp

lemma adaptive_bears (m' : LoadGlobalMember) : adaptive.Bears m' := by
  intro as a bs u i key e v n globals builtins value p h hs hp
  cases hp

lemma bears_adaptive (m : LoadGlobalMember) : m.Bears adaptive := by
  intro as a bs u i key e v n globals builtins value p h hs hp
  cases hs.specialized

end LoadGlobalMember

/-! ### Attributes -/

namespace LoadAttrMember

/-- What kind of token a member expects in the first word. -/
def kind? : LoadAttrMember → Option TokenKind
  | .adaptive => none
  | .instanceValue => some .shapes
  | .cls | .mod => some .keys

/-- A member does no harm with the words that a site was left with when it was specialized to
another, as for globals. The member for an attribute of a class takes the words of the one for a
module as long as there are shapes to be had: those left over have the null token. -/
def Bears (m m' : LoadAttrMember) : Prop :=
  ∀ (as : List Action) (a : Action) (bs : List Action) (u i : Nat) (key : String) (e : Entry)
    (v : VersionPair) (n : UInt8) (receiver value : Value),
    let p := ({} : Process).after as
    let h := ((p.perform a).after bs).world.heap
    p.Specializes a u i key ⟨.loadAttr m', e, v⟩ →
      (m = .cls → m' = .mod → h.tokens.shapes.upcoming ≠ TokenSource.limit) →
      m.probe { e with counter := n } v h receiver = some value →
      Operation.loadAttr h receiver key = .ok value

lemma probe_adaptive (e : Entry) (v : VersionPair) (h : Heap) (receiver : Value) :
    adaptive.probe e v h receiver = none := by
  unfold probe
  split <;> rfl

lemma bears_self (m : LoadAttrMember) : m.Bears m := by
  intro as a bs u i key e v n receiver value p h hs _ hp
  have htrusted := (QuickOp.trusted_counter n).mpr (hs.known bs).1
  exact probe_eq (htrusted key hs.name) hp

/-- A module and a class are told apart by their keys. -/
lemma mod_bears_cls : mod.Bears cls := by
  intro as a bs u i key e v n receiver value p h hs _ hp
  have htrusted : mod.Trusted h key { e with counter := n } v :=
    ((hs.known bs).1 key hs.name).2
  exact probe_eq htrusted hp

/-- The keys tell where the attribute is, and the second word has a shape without the field or none
at all. -/
lemma cls_bears_mod : cls.Bears mod := by
  intro as a bs u i key e v n receiver value p h hs hlast hp
  obtain ⟨htrusted, hrecalls⟩ := hs.known bs
  have hkeys : h.KeysTell e.version key (some e.index.toNat) := htrusted key hs.name
  refine probe_cls_eq (e := { e with counter := n }) (fun o ho => ?_) hkeys hp
  rcases hrecalls key hs.name with hnull | htells
  · -- a second word that was never written matches a shape without a token, and there is none
    have hstamped : h.Stamped :=
      ((Process.stamped_after as).becomes (Process.perform_becomes p a)).becomes
        (Process.after_becomes _ bs)
    exact hstamped.indexOf?_of_null (hlast rfl rfl) (ho.trans hnull) key
  · exact htells.tells _ ho

lemma adaptive_bears (m' : LoadAttrMember) : adaptive.Bears m' := by
  intro as a bs u i key e v n receiver value p h hs _ hp
  rw [probe_adaptive] at hp
  cases hp

lemma bears_adaptive (m : LoadAttrMember) : m.Bears adaptive := by
  intro as a bs u i key e v n receiver value p h hs _ hp
  cases hs.specialized

end LoadAttrMember

/-! ### The pairs that do harm -/

lemma Operation.attribute?_of_loadAttr {h : Heap} {receiver value : Value} {key : String}
    (ha : loadAttr h receiver key = .ok value) : attribute? h receiver key = some value := by
  unfold loadAttr at ha
  split at ha
  · next v hv =>
    cases ha
    exact hv
  · cases ha

namespace Process

/-- A unit that reads an attribute of a global. -/
def reader : Assembler :=
  { name := "read"
    instrs := #[⟨.loadGlobal, 0⟩, ⟨.loadAttr, 1⟩, ⟨.ret, 0⟩]
    names := #["r", "n"] }

/-- The attribute is read from one receiver, up to the step that specializes the site. -/
def readsFrom (setup : List Request) (main : Nat) (receiver : Value) : List Action :=
  setup.map .request ++
  [.request (.newModule "main"), .request (.assign main "r" receiver), .addUnit reader,
   .newVm { warmupThreshold := 1, specializeThreshold := 2 }] ++
  runFor 3 0 0 ⟨main, "main"⟩ ++ runFor 1 0 0 ⟨main, "main"⟩

/-- The receiver is a module, with as many versions of its keys as an instance has had shapes. -/
def readsModule : List Action :=
  readsFrom [.newModule "m", .assign 0 "n" (.int 3), .newClass "C", .instantiate ⟨0, "C"⟩,
    .setField ⟨0, "C"⟩ "a" (.int 7)] 2 (.mod ⟨0, "m"⟩)

lemma readsModule_specializes : (({} : Process).after readsModule).Specializes .step 0 1 "n"
    ⟨.loadAttr .mod, ⟨1, 4, 0, 2⟩, ⟨0, 0⟩⟩ :=
  ⟨by decide +kernel, by decide +kernel, rfl, by decide +kernel⟩

/-- The receiver is an instance without fields, whose class has the attribute. -/
def readsClass : List Action :=
  readsFrom [.newClass "C", .assign 0 "n" (.int 3), .instantiate ⟨0, "C"⟩, .instantiate ⟨0, "C"⟩,
    .setField ⟨1, "C"⟩ "a" (.int 7)] 1 (.inst ⟨0, "C"⟩)

/-- The receiver is an instance with the field. -/
def readsField : List Action :=
  readsFrom [.newModule "m", .assign 0 "a" (.int 7), .newClass "C", .instantiate ⟨0, "C"⟩,
    .setField ⟨0, "C"⟩ "n" (.int 3)] 2 (.inst ⟨0, "C"⟩)

/-- The receiver is an instance without fields at first, and then, until the site has fallen back
and is about to be specialized again, one of the same class with the field. -/
def readsBoth : List Action :=
  readsFrom [.newClass "C", .assign 0 "z" (.int 7), .assign 0 "n" (.int 3),
    .instantiate ⟨0, "C"⟩, .instantiate ⟨0, "C"⟩, .newShape, .setField ⟨1, "C"⟩ "n" (.int 4)]
    1 (.inst ⟨0, "C"⟩) ++
  [.step, .step, .request (.assign 1 "r" (.inst ⟨1, "C"⟩))] ++ runFor 3 0 0 ⟨1, "main"⟩ ++
  runFor 3 0 0 ⟨1, "main"⟩ ++ runFor 3 0 0 ⟨1, "main"⟩ ++ runFor 1 0 0 ⟨1, "main"⟩

/-- A builtin is read in a module with a name of its own. -/
def readsBuiltin : List Action :=
  [.newVm { warmupThreshold := 1, specializeThreshold := 2 }, .request (.newModule "main"),
   .request (.assign 1 "a" (.int 7)),
   .addUnit { name := "read", instrs := #[⟨.loadGlobal, 0⟩, ⟨.ret, 0⟩], names := #["abs"] }] ++
  runFor 2 0 0 ⟨1, "main"⟩ ++ runFor 0 0 0 ⟨1, "main"⟩

end Process

namespace LoadGlobalMember

/-- The slot of the builtin is taken for one of the module. -/
lemma not_mod_bears_builtin : ¬ mod.Bears builtin := by
  intro hb
  have hs : (({} : Process).after Process.readsBuiltin).Specializes .step 0 0 "abs"
      ⟨.loadGlobal .builtin, ⟨0, 4, 0, 0⟩, ⟨10, 8⟩⟩ :=
    ⟨by decide +kernel, by decide +kernel, rfl, by decide +kernel⟩
  have hhit : let h := ((({} : Process).after Process.readsBuiltin).perform .step).world.heap
      (mod.probe ⟨0, 4, 0, 0⟩ ⟨10, 8⟩ (h.namespaceAt 1) (h.namespaceAt 0)).bind Value.asInt? =
        some 7 ∧
      (Operation.loadGlobal (h.namespaceAt 1) (h.namespaceAt 0) "abs").toOption.bind
        Value.asInt? = none := by decide +kernel
  obtain ⟨hfast, hslow⟩ := hhit
  obtain ⟨value, hvalue, hint⟩ := Option.bind_eq_some_iff.mp hfast
  have hanswer : let h := ((({} : Process).after Process.readsBuiltin).perform .step).world.heap
      Operation.loadGlobal (h.namespaceAt 1) (h.namespaceAt 0) "abs" = .ok value :=
    hb Process.readsBuiltin .step [] 0 0 "abs" _ _ 4 1 0 value hs hvalue
  dsimp only at hanswer hslow
  rw [hanswer] at hslow
  cases hint.symm.trans hslow

/-- **Which members for globals bear the words of which.** -/
theorem bears_iff (m m' : LoadGlobalMember) : m.Bears m' ↔ ¬ (m = mod ∧ m' = builtin) := by
  refine ⟨?_, fun hpair => ?_⟩
  · rintro hb ⟨rfl, rfl⟩
    exact not_mod_bears_builtin hb
  cases m with
  | adaptive => exact adaptive_bears m'
  | mod =>
    cases m' with
    | adaptive => exact bears_adaptive _
    | mod => exact bears_self _
    | builtin => exact absurd ⟨rfl, rfl⟩ hpair
  | builtin =>
    cases m' with
    | adaptive => exact bears_adaptive _
    | mod => exact builtin_bears_mod
    | builtin => exact bears_self _

end LoadGlobalMember

namespace LoadAttrMember

/-- A site that has just been specialized refutes a pair if the member hits there with a number that
the attribute is not. -/
lemma not_bears_of_hit {m m' : LoadAttrMember} (as : List Action) (e : Entry) (v : VersionPair)
    (receiver : Value) (x : Int64) (hpair : m ≠ .cls ∨ m' ≠ .mod)
    (hs : (({} : Process).after as).Specializes .step 0 1 "n" ⟨.loadAttr m', e, v⟩)
    (hhit : let h := ((({} : Process).after as).perform .step).world.heap
      (m.probe e v h receiver).bind Value.asInt? = some x ∧
        (Operation.attribute? h receiver "n").bind Value.asInt? ≠ some x) : ¬ m.Bears m' := by
  intro hb
  obtain ⟨hfast, hslow⟩ := hhit
  obtain ⟨value, hvalue, hint⟩ := Option.bind_eq_some_iff.mp hfast
  have hanswer : Operation.loadAttr ((({} : Process).after as).perform .step).world.heap receiver
      "n" = .ok value :=
    hb as .step [] 0 1 "n" e v e.counter receiver value hs
      (fun hm hm' => hpair.elim (absurd hm) (absurd hm')) hvalue
  rw [Operation.attribute?_of_loadAttr hanswer] at hslow
  exact hslow hint

lemma not_instanceValue_bears_mod : ¬ instanceValue.Bears mod :=
  not_bears_of_hit Process.readsModule ⟨1, 4, 0, 2⟩ ⟨0, 0⟩ (.inst ⟨0, "C"⟩) 7 (.inl nofun)
    Process.readsModule_specializes (by decide +kernel)

lemma not_instanceValue_bears_cls : ¬ instanceValue.Bears cls :=
  not_bears_of_hit Process.readsClass ⟨1, 4, 0, 2⟩ ⟨1, 0⟩ (.inst ⟨1, "C"⟩) 7 (.inl nofun)
    ⟨by decide +kernel, by decide +kernel, rfl, by decide +kernel⟩ (by decide +kernel)

lemma not_mod_bears_instanceValue : ¬ mod.Bears instanceValue :=
  not_bears_of_hit Process.readsField ⟨1, 4, 0, 2⟩ ⟨0, 0⟩ (.mod ⟨0, "m"⟩) 7 (.inl nofun)
    ⟨by decide +kernel, by decide +kernel, rfl, by decide +kernel⟩ (by decide +kernel)

/-- The second word still has the shape that it was given before the site fell back. -/
lemma not_cls_bears_instanceValue : ¬ cls.Bears instanceValue :=
  not_bears_of_hit Process.readsBoth ⟨1, 4, 0, 3⟩ ⟨1, 0⟩ (.inst ⟨0, "C"⟩) 7 (.inr nofun)
    ⟨by decide +kernel, by decide +kernel, rfl, by decide +kernel⟩ (by decide +kernel)

/-- **Which members for attributes bear the words of which.** -/
theorem bears_iff (m m' : LoadAttrMember) :
    m.Bears m' ↔ ∀ k ∈ m.kind?, ∀ k' ∈ m'.kind?, k = k' := by
  have hapart {k k' : TokenKind} (hk : k ∈ m.kind?) (hk' : k' ∈ m'.kind?) (hne : k ≠ k') :
      ¬ ∀ k ∈ m.kind?, ∀ k' ∈ m'.kind?, k = k' := fun hall => hne (hall k hk k' hk')
  cases m with
  | adaptive => exact iff_of_true (adaptive_bears m') nofun
  | instanceValue =>
    cases m' with
    | adaptive => exact iff_of_true (bears_adaptive _) fun _ _ => nofun
    | instanceValue => exact iff_of_true (bears_self _) (by decide)
    | cls => exact iff_of_false not_instanceValue_bears_cls (hapart rfl rfl nofun)
    | mod => exact iff_of_false not_instanceValue_bears_mod (hapart rfl rfl nofun)
  | cls =>
    cases m' with
    | adaptive => exact iff_of_true (bears_adaptive _) fun _ _ => nofun
    | instanceValue => exact iff_of_false not_cls_bears_instanceValue (hapart rfl rfl nofun)
    | cls => exact iff_of_true (bears_self _) (by decide)
    | mod => exact iff_of_true cls_bears_mod (by decide)
  | mod =>
    cases m' with
    | adaptive => exact iff_of_true (bears_adaptive _) fun _ _ => nofun
    | instanceValue => exact iff_of_false not_mod_bears_instanceValue (hapart rfl rfl nofun)
    | cls => exact iff_of_true mod_bears_cls (by decide)
    | mod => exact iff_of_true (bears_self _) (by decide)

end LoadAttrMember

namespace Process

/-- **Which members bear the words of which.** A member for a global that finds the words of another
specialization misses or gives what the name stands for, unless it is the one for the module and the
words are for the builtins; one for an attribute does, just when the first word is of its kind. -/
theorem stale_words_borne (g g' : LoadGlobalMember) (m m' : LoadAttrMember) :
    (g.Bears g' ↔ ¬ (g = .mod ∧ g' = .builtin)) ∧
      (m.Bears m' ↔ ∀ k ∈ m.kind?, ∀ k' ∈ m'.kind?, k = k') :=
  ⟨LoadGlobalMember.bears_iff g g', LoadAttrMember.bears_iff m m'⟩

/-- With the words for an attribute of a module, the member for fields hits on an instance that has
no such attribute at all, and gives another field of it. -/
theorem stale_module_words_hit :
    let p := ({} : Process).after readsModule
    let h := (p.perform .step).world.heap
    p.Specializes .step 0 1 "n" ⟨.loadAttr .mod, ⟨1, 4, 0, 2⟩, ⟨0, 0⟩⟩ ∧
      (LoadAttrMember.instanceValue.probe ⟨1, 4, 0, 2⟩ ⟨0, 0⟩ h (.inst ⟨0, "C"⟩)).bind
        Value.asInt? = some 7 ∧
      Operation.loadAttr h (.inst ⟨0, "C"⟩) "n" = .error (.noAttribute "instance" "n") := by
  intro p h
  have hnone : (Operation.attribute? h (.inst ⟨0, "C"⟩) "n").isNone = true := by decide +kernel
  refine ⟨readsModule_specializes, by decide +kernel, ?_⟩
  rw [Operation.loadAttr, Option.isNone_iff_eq_none.mp hnone]
  rfl

end Process

end AdaptiveVM
