import AdaptiveVM.Proofs.Process

/-!
What holds in every state that a process can reach: quickened streams erase to static ones, and the
words of a specialized site are right about every object there is.
-/

namespace AdaptiveVM

/-- What a specialized member relies on, of a site whose static instruction is `i`. Tokens are
compared with those of all objects of the heap, whatever the site has seen so far. -/
def GuardHolds (h : Heap) (u : CodeUnit) (i : Instr) (e : Entry) (v : VersionPair) :
    QuickOp → Prop
  | .loadGlobal .mod =>
    ∃ name, u.name? i.arg = some name ∧ v.first ≠ 0 ∧
      ∀ n, (h.namespaceAt n).keysVersion = v.first →
        (h.namespaceAt n).indexOf? name = some e.index.toNat
  | .loadGlobal .builtin =>
    ∃ name, u.name? i.arg = some name ∧ v.first ≠ 0 ∧ v.second ≠ 0 ∧
      (∀ n, (h.namespaceAt n).keysVersion = v.first → (h.namespaceAt n).indexOf? name = none) ∧
      ∀ n, (h.namespaceAt n).keysVersion = v.second →
        (h.namespaceAt n).indexOf? name = some e.index.toNat
  | .loadAttr .instanceValue =>
    ∃ name, u.name? i.arg = some name ∧ e.version ≠ 0 ∧
      ∀ o, (h.shapeOf o).id = e.version →
        (h.shapeOf o).indexOf? name = some e.index.toNat ∧
          e.index.toNat < (h.instanceAt o).fields.size
  | .loadAttr .cls =>
    ∃ name, u.name? i.arg = some name ∧ v.first ≠ 0 ∧ e.version ≠ 0 ∧
      (∀ o, (h.shapeOf o).id = v.first → (h.shapeOf o).indexOf? name = none) ∧
      ∀ n, (h.namespaceAt n).keysVersion = e.version →
        (h.namespaceAt n).indexOf? name = some e.index.toNat
  | .loadAttr .mod =>
    ∃ name, u.name? i.arg = some name ∧ e.version ≠ 0 ∧
      ∀ n, (h.namespaceAt n).keysVersion = e.version →
        (h.namespaceAt n).indexOf? name = some e.index.toNat
  | .call .functionExact =>
    e.version ≠ 0 ∧ ∀ f, (h.functionAt f).version = e.version →
      (h.unitAt (h.functionAt f).unit).argcount = i.arg
  | .call .builtin =>
    e.version ≠ 0 ∧ ∀ b, (h.builtinAt b).id = e.version → (h.builtinAt b).arity = some i.arg
  | _ => True

lemma Shape.lt_size_of_indexOf? {s : Shape} {key : String} {i : Nat}
    (h : s.indexOf? key = some i) : i < s.keys.size :=
  (Array.findIdx?_eq_some_iff_getElem.mp h).1

/-- A trusted member of a stream that stands for its code relies on nothing that is not so. -/
lemma Quickened.Sound.guardHolds {q : Quickened} {h : Heap} {u : CodeUnit} {p : Nat} {i : Instr}
    (hq : q.Sound h u) (hh : h.WellFormed) (hu : u.Checked) (hi : u.instr? p = some i) :
    GuardHolds h u i (q.entryAt p) (q.versionsAt p) (q.instrAt p).op := by
  have htrust := hq.trusted p
  have hname {family : Family} (hf : (q.instrAt p).op.family? = some family)
      (hk : family.opcode.operandKind = .name) :
      ∃ name, u.name? i.arg = some name ∧ u.name? (q.entryAt p).arg = some name := by
    obtain ⟨i', hi', hf'⟩ := hq.erases.getElem?_of_family hf
    cases hi'.symm.trans hi
    have hown : q.hasEntries p = true := by
      rw [hasEntries_of_family hf]
      cases family
      · rfl
      · rfl
      · cases hk
      · cases hk
    obtain ⟨name, hn⟩ := hu.name hi (by rw [Opcode.eq_of_family hf']; exact hk)
    exact ⟨name, hn, by rw [hq.erases.arg_entryAt hi hown]; exact hn⟩
  have hcall (hf : (q.instrAt p).op.family? = some .call) : (q.entryAt p).arg = i.arg :=
    hq.erases.arg_entryAt hi (by rw [hasEntries_of_family hf]; rfl)
  rcases hop : (q.instrAt p).op with op | member | member | member | member
  · trivial
  · rw [hop] at htrust hname
    obtain ⟨name, hn, hn'⟩ := hname rfl rfl
    have ht := htrust name hn'
    cases member with
    | adaptive => trivial
    | mod => exact ⟨name, hn, ht.issued.1, ht.tells⟩
    | builtin => exact ⟨name, hn, ht.1.issued.1, ht.2.issued.1, ht.1.tells, ht.2.tells⟩
  · rw [hop] at htrust hname
    obtain ⟨name, hn, hn'⟩ := hname rfl rfl
    have ht := htrust name hn'
    cases member with
    | adaptive => trivial
    | instanceValue =>
      refine ⟨name, hn, ht.issued.1, fun o ho => ?_⟩
      have hindex := ht.tells _ ho
      exact ⟨hindex, (Shape.lt_size_of_indexOf? hindex).trans_le (hh.shaped.fields o.id).2⟩
    | cls =>
      exact ⟨name, hn, ht.1.issued.1, ht.2.issued.1, fun o ho => ht.1.tells _ ho, ht.2.tells⟩
    | mod => exact ⟨name, hn, ht.issued.1, ht.tells⟩
  · rw [hop] at htrust hcall
    have harg := hcall rfl
    cases member with
    | adaptive => trivial
    | functionExact =>
      refine ⟨htrust.issued.1, fun f hf => ?_⟩
      rw [← harg]
      exact htrust.tells f.id hf
    | builtin =>
      refine ⟨htrust.issued.1, fun b hb => ?_⟩
      rw [← harg]
      exact htrust.tells b.id hb
  · trivial

namespace Process

/-- **Guards are sound**: whatever hosts and interpreters have done, the words of a site at a static
instruction `i` are right about every object of the heap. -/
theorem guard_sound (as : List Action) (u p : Nat) (q : Quickened) (i : Instr)
    (hq : ((({} : Process).after as).world.attachmentAt u).quickened = some q)
    (hi : ((({} : Process).after as).world.heap.unitAt u).instr? p = some i) :
    GuardHolds (({} : Process).after as).world.heap
      ((({} : Process).after as).world.heap.unitAt u) i (q.entryAt p) (q.versionsAt p)
      (q.instrAt p).op := by
  have hw : (({} : Process).after as).world.Sound := after_sound World.sound_empty as
  exact (hw.streams u q hq).guardHolds hw.heap (hw.checked u) hi

/-- An instance whose class has an attribute, read twice by a unit that is quickened at once; then
the class is given another attribute. -/
def readsClassAttribute : List Action :=
  [.newVm { warmupThreshold := 1, specializeThreshold := 2 },
   .request (.newModule "main"),
   .request (.newClass "C"),
   .request (.assign 2 "k" (.int 7)),
   .request (.instantiate ⟨0, "C"⟩),
   .request (.assign 1 "o" (.inst ⟨0, "C"⟩)),
   .addUnit
    { name := "read"
      instrs := #[⟨.loadGlobal, 0⟩, ⟨.loadAttr, 1⟩, ⟨.ret, 0⟩]
      names := #["o", "k"] },
   .invoke 0 (.run 0 ⟨1, "main"⟩), .step, .step, .step,
   .invoke 0 (.run 0 ⟨1, "main"⟩), .step, .step, .step,
   .request (.assign 2 "other" (.int 8))]

theorem guard_sound_class_attribute :
    ∃ q, ((({} : Process).after readsClassAttribute).world.attachmentAt 0).quickened = some q ∧
      (q.instrAt 1).op = .loadAttr .cls ∧
      GuardHolds (({} : Process).after readsClassAttribute).world.heap
        ((({} : Process).after readsClassAttribute).world.heap.unitAt 0) ⟨.loadAttr, 1⟩
        (q.entryAt 1) (q.versionsAt 1) (.loadAttr .cls) := by
  have hrun : ((({} : Process).after readsClassAttribute).world.attachmentAt 0).quickened.map
      (fun q => (q.instrAt 1).op) = some (.loadAttr .cls) := by decide +kernel
  obtain ⟨q, hq, hop⟩ := Option.map_eq_some_iff.mp hrun
  have hholds := guard_sound readsClassAttribute 0 1 q ⟨.loadAttr, 1⟩ hq (by decide +kernel)
  rw [hop] at hholds
  exact ⟨q, hq, hop, hholds⟩

/-- **Quickened streams erase**: whatever hosts and interpreters have done, a quickened stream
stands for its static one, and the records of its sites name the static opcodes with a family, one
by one and in order. -/
theorem stream_erases (as : List Action) (u : Nat) (q : Quickened)
    (hq : ((({} : Process).after as).world.attachmentAt u).quickened = some q) :
    q.ErasesTo ((({} : Process).after as).world.heap.unitAt u).instrs ∧
      (q.sites.map fun s => (s.position, s.opcode)) =
        (List.range ((({} : Process).after as).world.heap.unitAt u).size).filterMap fun p =>
          (((({} : Process).after as).world.heap.unitAt u).instr? p).bind fun i =>
            if i.op.family?.isSome then some (p, i.op) else none := by
  have hw : (({} : Process).after as).world.Sound := after_sound World.sound_empty as
  have herase := (hw.streams u q hq).erases
  exact ⟨herase, herase.sites_eq⟩

/-- Specialized where the global is a number, run until it falls back where it is a text. -/
theorem stream_erases_fallen_back :
    ∃ q, ((({} : Process).after (doubling ++ runFor 4 1 0 ⟨3, "texts"⟩ ++
        runFor 4 1 0 ⟨3, "texts"⟩)).world.attachmentAt 0).quickened = some q ∧
      (q.instrAt 2).op = .binaryAdd .adaptive ∧ q.ErasesTo double.instrs ∧
      (q.sites.map fun s => (s.position, s.opcode)) =
        [(0, .loadGlobal), (1, .loadGlobal), (2, .binaryAdd)] := by
  have hrun : ((({} : Process).after (doubling ++ runFor 4 1 0 ⟨3, "texts"⟩ ++
      runFor 4 1 0 ⟨3, "texts"⟩)).world.attachmentAt 0).quickened.map (fun q => (q.instrAt 2).op) =
        some (.binaryAdd .adaptive) := by decide +kernel
  obtain ⟨q, hq, hop⟩ := Option.map_eq_some_iff.mp hrun
  obtain ⟨herase, hsites⟩ := stream_erases _ 0 q hq
  have hcode : ((({} : Process).after (doubling ++ runFor 4 1 0 ⟨3, "texts"⟩ ++
      runFor 4 1 0 ⟨3, "texts"⟩)).world.heap.unitAt 0).instrs = double.instrs := by decide +kernel
  rw [hcode] at herase
  exact ⟨q, hq, hop, herase, hsites.trans (by decide +kernel)⟩

end Process

end AdaptiveVM
