import AdaptiveVM.Proofs.Soundness

/-!
What an execution of a site sees, and what a step does.

At a trusted site the fast way gives the answer of the generic one, so an execution of a member is
one event at its site, and then goes on as the static instruction would. The event is decided by
what stands at the site and by what the execution sees there: the namespaces a global is looked up
in, the receiver of an attribute, the value that is called, or the operands of an addition.
Everything that is kept along executions is derived from this.
-/

namespace AdaptiveVM

/-! ### The fast ways -/

section Probes

variable {h : Heap} {key : String} {e : Entry} {v : VersionPair} {value : Value}

lemma Namespace.get?_of_indexOf? {ns : Namespace} {i : Nat} (hi : ns.indexOf? key = some i) :
    ns.get? key = ns.valueAt? i := by
  rw [get?, hi, Option.bind_some]

lemma Namespace.get?_of_none {ns : Namespace} (hi : ns.indexOf? key = none) :
    ns.get? key = none := by
  rw [get?, hi, Option.bind_none]

lemma LoadGlobalMember.probe_eq {member : LoadGlobalMember} {globals builtins : Nat}
    (ht : member.Trusted h key e v)
    (hp : member.probe e v (h.namespaceAt globals) (h.namespaceAt builtins) = some value) :
    Operation.loadGlobal (h.namespaceAt globals) (h.namespaceAt builtins) key = .ok value := by
  cases member with
  | adaptive => cases hp
  | mod =>
    simp only [probe] at hp
    split at hp
    · next hg =>
      rw [Operation.loadGlobal, Namespace.get?_of_indexOf? (ht.tells globals hg.2), hp]
    · cases hp
  | builtin =>
    simp only [probe] at hp
    split at hp
    · next hg =>
      rw [Operation.loadGlobal, Namespace.get?_of_none (ht.1.tells globals hg.2.2.1),
        Namespace.get?_of_indexOf? (ht.2.tells builtins hg.2.2.2), hp]
    · cases hp

lemma Operation.loadAttr_of_attribute? {receiver : Value}
    (ha : attribute? h receiver key = some value) : loadAttr h receiver key = .ok value := by
  rw [loadAttr, ha]

/-- The member for an attribute of a class relies on two things. -/
lemma LoadAttrMember.probe_cls_eq {receiver : Value}
    (hshape : ∀ o, (h.shapeOf o).id = v.first → (h.shapeOf o).indexOf? key = none)
    (hkeys : h.KeysTell e.version key (some e.index.toNat))
    (hp : cls.probe e v h receiver = some value) :
    Operation.loadAttr h receiver key = .ok value := by
  refine Operation.loadAttr_of_attribute? ?_
  unfold probe at hp
  split at hp
  · cases hp
  cases receiver with
  | inst o =>
    dsimp only at hp
    split at hp
    · next hs =>
      have hfield : h.field? o key = none := by
        rw [Heap.field?, hshape o hs, Option.bind_none]
      split at hp
      · next hk =>
        rw [Operation.attribute?, hfield]
        exact (Namespace.get?_of_indexOf? (hkeys.tells _ hk)).trans hp
      · cases hp
    · cases hp
  | _ => cases hp

lemma LoadAttrMember.probe_eq {member : LoadAttrMember} {receiver : Value}
    (ht : member.Trusted h key e v) (hp : member.probe e v h receiver = some value) :
    Operation.loadAttr h receiver key = .ok value := by
  cases member with
  | adaptive =>
    unfold probe at hp
    split at hp <;> cases hp
  | instanceValue =>
    refine Operation.loadAttr_of_attribute? ?_
    unfold probe at hp
    split at hp
    · cases hp
    cases receiver with
    | inst o =>
      dsimp only [Heap.fieldIfShape?] at hp
      split at hp
      · next hs =>
        have hindex : (h.shapeOf o).indexOf? key = some e.index.toNat := ht.tells _ hs
        have hfield : h.field? o key = some value := by
          rw [Heap.field?, hindex, Option.bind_some]
          exact hp
        rw [Operation.attribute?, hfield]
      · cases hp
    | _ => cases hp
  | cls => exact probe_cls_eq (fun o hs => ht.1.tells _ hs) ht.2 hp
  | mod =>
    refine Operation.loadAttr_of_attribute? ?_
    unfold probe at hp
    split at hp
    · cases hp
    cases receiver with
    | mod m =>
      dsimp only at hp
      split at hp
      · next hk => exact (Namespace.get?_of_indexOf? (ht.tells m.id hk)).trans hp
      · cases hp
    | _ => cases hp

lemma BinaryAddMember.probe_eq {member : BinaryAddMember} {left right : Value}
    {r : Except Fault Value} (hp : member.probe left right = some r) :
    Operation.add left right = r := by
  unfold probe at hp
  split at hp
  · cases hp
    rfl
  · cases hp
    rfl
  · cases hp
    rfl
  · cases hp

/-- A guard of a call that holds tells what is called, and how. -/
lemma CallMember.probe_cases {member : CallMember} {callee : Value} {fast : FastCall}
    (hp : member.probe e h callee = some fast) :
    (∃ fn, fast = .function fn ∧ callee = .function fn ∧
      (h.unitAt (h.functionAt fn).unit).argcount = e.arg) ∨
    ∃ b, fast = .builtin b ∧ callee = .builtin b ∧ (h.builtinAt b).arity = some e.arg := by
  cases member with
  | adaptive => cases hp
  | functionExact =>
    cases callee with
    | function fn =>
      dsimp only [probe] at hp
      split at hp
      · next hg =>
        cases hp
        exact .inl ⟨fn, rfl, rfl, hg.2.2⟩
      · cases hp
    | _ => cases hp
  | builtin =>
    cases callee with
    | builtin b =>
      dsimp only [probe] at hp
      split at hp
      · next hg =>
        cases hp
        exact .inr ⟨b, rfl, rfl, hg.2.2⟩
      · cases hp
    | _ => cases hp

end Probes

/-- Arguments that fill the parameters exactly leave no room for defaults. -/
lemma Binding.bind_exact (name : String) (nlocals : Nat) (defaults args : List Value) :
    Binding.bind name args.length nlocals defaults args = .ok (Binding.slots nlocals args) := by
  have hreq : required args.length defaults.length ≤ args.length := Nat.sub_le ..
  unfold Binding.bind
  rw [if_neg (by omega)]
  simp

lemma Heap.invoke_exact {h : Heap} {b : Ref .builtin} {arity : UInt8} {args : List Value}
    (ha : (h.builtinAt b).arity = some arity) (hl : args.length = arity.toNat) :
    h.invoke b args = h.perform (h.builtinAt b).procedure args := by
  unfold Heap.invoke
  dsimp only
  rw [ha]
  exact if_pos hl

namespace Machine

variable {h : Heap} {a : Array Attachment} {vm : Vm} {f : Frame} {rest : List Frame}
  {u : CodeUnit} {key : String} {arg : UInt8}

/-! ### Static instructions, by what they compute -/

lemma stepPlain_loadGlobal (hk : u.name? arg = some key) :
    stepPlain h a vm f rest u .loadGlobal arg =
      settle ⟨h, a, vm, f :: rest⟩ (Operation.loadGlobal (h.namespaceAt f.globals.id)
        (h.namespaceAt vm.builtins.id) key) := by
  simp only [stepPlain, Frame.effect, hk]
  rcases Operation.loadGlobal _ _ key with cause | value
  · rfl
  · rfl

lemma stepPlain_loadAttr (hk : u.name? arg = some key) {receiver : Value} {below : List Value}
    (hs : f.stack = receiver :: below) :
    stepPlain h a vm f rest u .loadAttr arg =
      settle ⟨h, a, vm, { f with stack := below } :: rest⟩
        (Operation.loadAttr h receiver key) := by
  simp only [stepPlain, Frame.effect, hk, hs]
  rcases Operation.loadAttr h receiver key with cause | value
  · rfl
  · rfl

lemma stepPlain_loadAttr_nil (hk : u.name? arg = some key) (hs : f.stack = []) :
    stepPlain h a vm f rest u .loadAttr arg =
      fail ⟨h, a, vm, f :: rest⟩ (.code (.stackUnderflow u.name)) := by
  simp only [stepPlain, Frame.effect, hk, hs]

lemma stepPlain_call {args : List Value} {callee : Value} {below : List Value}
    (hs : f.popMany? arg.toNat = some (args, callee :: below)) :
    stepPlain h a vm f rest u .call arg =
      call ⟨h, a, vm, { f with stack := below } :: rest⟩ callee args := by
  simp only [stepPlain, Frame.effect, hs]
  rfl

lemma stepPlain_call_short (hs : ¬ arg.toNat + 1 ≤ f.stack.length) :
    stepPlain h a vm f rest u .call arg =
      fail ⟨h, a, vm, f :: rest⟩ (.code (.stackUnderflow u.name)) := by
  have hshort := popMany?_short f hs
  rcases hp : f.popMany? arg.toNat with _ | ⟨args, _ | ⟨callee, below⟩⟩
  · simp only [stepPlain, Frame.effect, hp]
  · simp only [stepPlain, Frame.effect, hp]
  · exact absurd hp (hshort args callee below)

lemma stepPlain_binaryAdd {left right : Value} {below : List Value}
    (hs : f.stack = right :: left :: below) :
    stepPlain h a vm f rest u .binaryAdd arg =
      settle ⟨h, a, vm, { f with stack := below } :: rest⟩ (Operation.add left right) := by
  simp only [stepPlain, Frame.effect, hs]
  rcases Operation.add left right with cause | value
  · rfl
  · rfl

lemma stepPlain_binaryAdd_short (hs : ¬ 2 ≤ f.stack.length) :
    stepPlain h a vm f rest u .binaryAdd arg =
      fail ⟨h, a, vm, f :: rest⟩ (.code (.stackUnderflow u.name)) := by
  rcases hst : f.stack with _ | ⟨right, _ | ⟨left, below⟩⟩
  · simp only [stepPlain, Frame.effect, hst]
  · simp only [stepPlain, Frame.effect, hst]
  · rw [hst] at hs
    simp at hs

lemma call_function_exact (m : Machine) (fn : Ref .function) {args : List Value}
    (hl : args.length = (m.heap.unitAt (m.heap.functionAt fn).unit).argcount.toNat) :
    m.call (.function fn) args = m.enterExact fn args := by
  simp only [call, ← hl, Binding.bind_exact]
  rfl

lemma call_builtin_exact (m : Machine) (b : Ref .builtin) {arity : UInt8} {args : List Value}
    (ha : (m.heap.builtinAt b).arity = some arity) (hl : args.length = arity.toNat) :
    m.call (.builtin b) args = m.perform b args := by
  show m.callBuiltin b args = m.perform b args
  rw [callBuiltin, Heap.invoke_exact ha hl]
  rfl

lemma length_of_popMany? {count : Nat} {args below : List Value}
    (hs : f.popMany? count = some (args, below)) : args.length = count := by
  unfold Frame.popMany? at hs
  split at hs
  · cases hs
  · cases hs
    simp only [List.length_reverse, List.length_take]
    omega

end Machine

/-! ### Sights -/

/-- What an execution of a site works on. -/
inductive Sight where
  | names (globals builtins : Nat)
  | receiver (value : Value)
  | callee (value : Value)
  | operands (left right : Value)

/-- What a frame shows to an instruction that heads a family. -/
def Frame.sight? (f : Frame) (builtins : Ref .mod) (i : Instr) : Option Sight :=
  match i.op with
  | .loadGlobal => some (.names f.globals.id builtins.id)
  | .loadAttr =>
    match f.stack with
    | receiver :: _ => some (.receiver receiver)
    | [] => none
  | .call =>
    match f.popMany? i.arg.toNat with
    | some (_, callee :: _) => some (.callee callee)
    | _ => none
  | .binaryAdd =>
    match f.stack with
    | right :: left :: _ => some (.operands left right)
    | _ => none
  | _ => none

/-- A callee is seen under the arguments of a call. -/
lemma Frame.popMany?_of_sight? {f : Frame} {builtins : Ref .mod} {i : Instr} {callee : Value}
    (hs : f.sight? builtins i = some (.callee callee)) :
    i.op = .call ∧ ∃ args below, f.popMany? i.arg.toNat = some (args, callee :: below) := by
  unfold sight? at hs
  split at hs
  · cases hs
  · split at hs <;> cases hs
  · next hcall =>
    split at hs
    · next args seen below hp =>
      cases hs
      exact ⟨hcall, args, below, hp⟩
    · cases hs
  · split at hs <;> cases hs
  · cases hs

namespace Machine

variable {h : Heap} {a : Array Attachment} {vm : Vm} {f : Frame} {rest : List Frame}
  {u : CodeUnit} {q : Quickened} {i : Instr} {p : Nat} {fam : Family} {t : Trial} {s : Sight}

/-- What an execution comes to, by what it sees: the guard is tried on that, or an attempt to
specialize is made with it. -/
inductive Faces (h : Heap) (u : CodeUnit) (q : Quickened) (p : Nat) :
    Sight → Family → Trial → Prop where
  | loadGlobal {member : LoadGlobalMember} {key : String} (globals builtins : Nat)
      (op : (q.instrAt p).op = .loadGlobal member) (name : u.name? (q.entryAt p).arg = some key) :
      Faces h u q p (.names globals builtins) .loadGlobal
        (member.trial (member.probe (q.entryAt p) (q.versionsAt p) (h.namespaceAt globals)
          (h.namespaceAt builtins)).isSome
          (Specialize.loadGlobal (h.namespaceAt globals) (h.namespaceAt builtins) key))
  | loadAttr {member : LoadAttrMember} {key : String} (receiver : Value)
      (op : (q.instrAt p).op = .loadAttr member) (name : u.name? (q.entryAt p).arg = some key) :
      Faces h u q p (.receiver receiver) .loadAttr
        (member.trial (member.probe (q.entryAt p) (q.versionsAt p) h receiver).isSome
          (Specialize.loadAttr h receiver key))
  | call {member : CallMember} (callee : Value) (op : (q.instrAt p).op = .call member) :
      Faces h u q p (.callee callee) .call
        (member.trial (member.probe (q.entryAt p) h callee).isSome
          (Specialize.call h callee (q.entryAt p).arg))
  | binaryAdd {member : BinaryAddMember} (left right : Value)
      (op : (q.instrAt p).op = .binaryAdd member) :
      Faces h u q p (.operands left right) .binaryAdd
        (member.trial (member.probe left right).isSome (Specialize.binaryAdd left right))

lemma Faces.finds (hf : Faces h u q p s fam t) : Finds h u q p fam t := by
  cases hf with
  | loadGlobal globals builtins op name => exact .loadGlobal globals builtins _ op name
  | loadAttr receiver op name => exact .loadAttr receiver _ op name
  | call callee op => exact .call callee _ op
  | binaryAdd left right op => exact .binaryAdd left right _ op

/-- The site is executed: the event that the sight leads to happens, and the static instruction is
executed from there. -/
structure Sees (h : Heap) (a : Array Attachment) (vm : Vm) (f : Frame) (rest : List Frame)
    (u : CodeUnit) (i : Instr) (q : Quickened) (s : Sight) (fam : Family) (t : Trial)
    (out : Progress) : Prop where
  sight : f.sight? vm.builtins i = some s
  faces : Faces h u q f.position s fam t
  eq : out = stepPlain h (visit a vm f.unit f.position fam t).1
    (visit a vm f.unit f.position fam t).2 f rest u i.op i.arg

/-! ### The four families -/

variable {e : Entry} {v : VersionPair} {key : String}

lemma stepLoadGlobal_sees {member : LoadGlobalMember} (hi : i.op = .loadGlobal)
    (harg : (q.entryAt f.position).arg = i.arg)
    (hop : (q.instrAt f.position).op = .loadGlobal member) (hk : u.name? i.arg = some key)
    (ht : member.Trusted h key (q.entryAt f.position) (q.versionsAt f.position)) :
    ∃ s t, Sees h a vm f rest u i q s .loadGlobal t
      (stepLoadGlobal h a vm f rest u member (q.entryAt f.position) (q.versionsAt f.position)) := by
  have hk' : u.name? (q.entryAt f.position).arg = some key := by rw [harg, hk]
  refine ⟨_, _, by simp only [Frame.sight?, hi],
    .loadGlobal f.globals.id vm.builtins.id hop hk', ?_⟩
  rw [hi, stepPlain_loadGlobal hk]
  simp only [stepLoadGlobal, hk']
  split
  · next value hp =>
    show _ = settle _ (Operation.loadGlobal (h.namespaceAt f.globals.id)
      (h.namespaceAt vm.builtins.id) key)
    rw [LoadGlobalMember.probe_eq ht hp]
    rfl
  · rfl

lemma stepLoadAttr_sees {member : LoadAttrMember} (hi : i.op = .loadAttr)
    (harg : (q.entryAt f.position).arg = i.arg)
    (hop : (q.instrAt f.position).op = .loadAttr member) (hk : u.name? i.arg = some key)
    (ht : member.Trusted h key (q.entryAt f.position) (q.versionsAt f.position))
    {receiver : Value} {below : List Value} (hs : f.stack = receiver :: below) :
    ∃ s t, Sees h a vm f rest u i q s .loadAttr t
      (stepLoadAttr h a vm f rest u member (q.entryAt f.position) (q.versionsAt f.position)) := by
  have hk' : u.name? (q.entryAt f.position).arg = some key := by rw [harg, hk]
  refine ⟨_, _, by simp only [Frame.sight?, hi, hs], .loadAttr receiver hop hk', ?_⟩
  rw [hi, stepPlain_loadAttr hk hs]
  simp only [stepLoadAttr, hk', hs]
  split
  · next value hp =>
    rw [LoadAttrMember.probe_eq ht hp]
    rfl
  · rfl

lemma stepCall_sees {member : CallMember} (hi : i.op = .call)
    (harg : (q.entryAt f.position).arg = i.arg)
    (hop : (q.instrAt f.position).op = .call member) {args : List Value} {callee : Value}
    {below : List Value} (hs : f.popMany? i.arg.toNat = some (args, callee :: below)) :
    ∃ s t, Sees h a vm f rest u i q s .call t
      (stepCall h a vm f rest u member (q.entryAt f.position)) := by
  have hs' : f.popMany? (q.entryAt f.position).arg.toNat = some (args, callee :: below) := by
    rw [harg, hs]
  have hargs : args.length = (q.entryAt f.position).arg.toNat := length_of_popMany? hs'
  refine ⟨_, _, by simp only [Frame.sight?, hi, hs], .call callee hop, ?_⟩
  rw [hi, stepPlain_call hs]
  simp only [stepCall, hs']
  -- the guard tells how the generic way would go on
  rcases hp : member.probe (q.entryAt f.position) h callee with _ | fast
  · rfl
  · rcases CallMember.probe_cases hp with ⟨fn, rfl, rfl, hcount⟩ | ⟨b, rfl, rfl, harity⟩
    · exact (call_function_exact _ fn (by rw [hargs, ← hcount])).symm
    · exact (call_builtin_exact _ b harity hargs).symm

lemma stepBinaryAdd_sees {member : BinaryAddMember} (hi : i.op = .binaryAdd)
    (hop : (q.instrAt f.position).op = .binaryAdd member) {left right : Value} {below : List Value}
    (hs : f.stack = right :: left :: below) :
    ∃ s t, Sees h a vm f rest u i q s .binaryAdd t
      (stepBinaryAdd h a vm f rest u member) := by
  refine ⟨_, _, by simp only [Frame.sight?, hi, hs], .binaryAdd left right hop, ?_⟩
  rw [hi, stepPlain_binaryAdd hs]
  simp only [stepBinaryAdd, hs]
  rcases hp : member.probe left right with _ | r
  · rfl
  · rw [BinaryAddMember.probe_eq hp]
    rfl

/-- A member executes as an event and its static instruction, or its operands are missing and only
the static instruction is executed. -/
lemma execute_sees (vm : Vm) (rest : List Frame) (hquick : f.quick = true)
    (hq : (a.getD f.unit default).quickened = some q) (hi : u.instr? f.position = some i)
    (hsound : q.Sound h u) (hu : u.Checked)
    (hfam : (q.instrAt f.position).op.family? = some fam) :
    (i.operands ≤ f.stack.length ∧ ∃ s t, Sees h a vm f rest u i q s fam t
      (execute h a vm f rest u (q.instrAt f.position))) ∨
    (¬ i.operands ≤ f.stack.length ∧ execute h a vm f rest u (q.instrAt f.position) =
      stepPlain h a vm f rest u i.op i.arg) := by
  have htrust := hsound.trusted f.position
  have hopcode : i.op = fam.opcode := by
    obtain ⟨i', hi', hf'⟩ := hsound.erases.getElem?_of_family hfam
    cases hi'.symm.trans hi
    exact Opcode.eq_of_family hf'
  have harg (hown : 0 < fam.entries) : (q.entryAt f.position).arg = i.arg :=
    hsound.erases.arg_entryAt hi (by rw [Quickened.hasEntries_of_family hfam, decide_eq_true hown])
  rw [execute_site (wordsAt?_of_quick hquick hq)]
  rcases hop : (q.instrAt f.position).op with op | member | member | member | member
  · rw [hop] at hfam
    cases hfam
  · rw [hop] at hfam htrust
    cases hfam
    obtain ⟨key, hkey⟩ := hu.name hi (by rw [hopcode]; rfl)
    have ht := htrust key (by rw [harg (by decide), hkey])
    exact .inl ⟨by simp [Instr.operands, hopcode, Family.opcode],
      stepLoadGlobal_sees hopcode (harg (by decide)) hop hkey ht⟩
  · rw [hop] at hfam htrust
    cases hfam
    obtain ⟨key, hkey⟩ := hu.name hi (by rw [hopcode]; rfl)
    have ht := htrust key (by rw [harg (by decide), hkey])
    rcases hs : f.stack with _ | ⟨receiver, below⟩
    · refine .inr ⟨by simp [Instr.operands, hopcode, Family.opcode], ?_⟩
      rw [hopcode, Family.opcode, stepPlain_loadAttr_nil hkey hs]
      simp only [stepLoadAttr, hs]
    · exact .inl ⟨by simp [Instr.operands, hopcode, Family.opcode],
        stepLoadAttr_sees hopcode (harg (by decide)) hop hkey ht hs⟩
  · rw [hop] at hfam
    cases hfam
    have hneed : i.operands = i.arg.toNat + 1 := by rw [Instr.operands, hopcode]; rfl
    rw [hneed]
    by_cases hlen : i.arg.toNat + 1 ≤ f.stack.length
    · obtain ⟨args, callee, below, hs⟩ := popMany?_eq_some f hlen
      exact .inl ⟨hlen, stepCall_sees hopcode (harg (by decide)) hop hs⟩
    · refine .inr ⟨hlen, ?_⟩
      have hshort := popMany?_short f hlen
      rw [hopcode, Family.opcode, stepPlain_call_short hlen]
      dsimp only
      unfold stepCall
      rw [harg (by decide)]
      split
      · next hs => exact absurd hs (hshort _ _ _)
      · rfl
  · rw [hop] at hfam
    cases hfam
    rcases hs : f.stack with _ | ⟨right, _ | ⟨left, below⟩⟩
    · refine .inr ⟨by simp [Instr.operands, hopcode, Family.opcode], ?_⟩
      rw [hopcode, Family.opcode, stepPlain_binaryAdd_short (by simp [hs])]
      simp only [stepBinaryAdd, hs]
    · refine .inr ⟨by simp [Instr.operands, hopcode, Family.opcode], ?_⟩
      rw [hopcode, Family.opcode, stepPlain_binaryAdd_short (by simp [hs])]
      simp only [stepBinaryAdd, hs]
    · exact .inl ⟨by simp [Instr.operands, hopcode, Family.opcode],
        stepBinaryAdd_sees hopcode hop hs⟩

/-- **What a step does, exactly**: it executes the static instruction, after an event if it executes
a site. -/
theorem step_sees (vm : Vm) (rest : List Frame) (hw : World.Sound ⟨h, a⟩)
    (hi : (h.unitAt f.unit).instr? f.position = some i) :
    (site? ⟨h, a, vm, f :: rest⟩ = none ∧ step ⟨h, a, vm, f :: rest⟩ =
      stepPlain h a (vm.observe (h.unitAt f.unit).name f.position i) f rest (h.unitAt f.unit)
        i.op i.arg) ∨
    ∃ q s fam t, (a.getD f.unit default).quickened = some q ∧
      site? ⟨h, a, vm, f :: rest⟩ = some fam ∧
      Sees h a (vm.observe (h.unitAt f.unit).name f.position i) f rest (h.unitAt f.unit) i q s fam t
        (step ⟨h, a, vm, f :: rest⟩) := by
  have hstep : step ⟨h, a, vm, f :: rest⟩ = _ := step_of_some hi
  rcases hquick : f.quick with _ | _
  · refine .inl ⟨by simp only [site?, hi, hquick], ?_⟩
    rw [hstep, fetch_of_static (.inl hquick), execute_plain]
  rcases hq : (a.getD f.unit default).quickened with _ | q
  · refine .inl ⟨by simp only [site?, hi, hquick, hq], ?_⟩
    rw [hstep, fetch_of_static (.inr hq), execute_plain]
  have hsound : q.Sound h (h.unitAt f.unit) := hw.streams f.unit q hq
  have hsite : site? ⟨h, a, vm, f :: rest⟩ =
      if i.operands ≤ f.stack.length then (q.instrAt f.position).op.family? else none := by
    simp only [site?, hi, hquick, hq]
  rw [hstep, fetch_of_quick hquick hq]
  rcases hsound.erases.instrAt_cases hi with hp | ⟨fam, -, hfam⟩
  · -- the site was left static
    refine .inl ⟨?_, ?_⟩
    · rw [hsite, hp, Quickened.family_plain, ite_self]
    · rw [hp, execute_plain]
  · rcases execute_sees (vm.observe (h.unitAt f.unit).name f.position i) rest hquick hq hi hsound
      (hw.checked f.unit) hfam with ⟨hlen, s, t, hsees⟩ | ⟨hlen, hplain⟩
    · exact .inr ⟨q, s, fam, t, rfl, by rw [hsite, if_pos hlen, hfam], hsees⟩
    · exact .inl ⟨by rw [hsite, if_neg hlen], hplain⟩

/-! ### One step -/

/-- The step of a machine executes a site: the innermost frame stands there, what it sees leads to
one event at the site, and the rest is quiet. -/
structure Visits (m : Machine) (f : Frame) (q : Quickened) (fam : Family) (t : Trial) : Prop where
  frame : m.frames.head? = some f
  site : m.site? = some fam
  stream : (m.attachments.getD f.unit default).quickened = some q
  faces : ∃ i s, (m.heap.unitAt f.unit).instr? f.position = some i ∧
    f.sight? m.vm.builtins i = some s ∧ Faces m.heap (m.heap.unitAt f.unit) q f.position s fam t
  quiet : Quiet m.heap (visit m.attachments m.vm f.unit f.position fam t).1
    (visit m.attachments m.vm f.unit f.position fam t).2 m.step.machine

variable {m : Machine}

lemma Visits.finds (hv : m.Visits f q fam t) :
    Finds m.heap (m.heap.unitAt f.unit) q f.position fam t := by
  obtain ⟨i, s, -, -, hfaces⟩ := hv.faces
  exact hfaces.finds

lemma Sees.visits (hi : (h.unitAt f.unit).instr? f.position = some i)
    (hstream : (a.getD f.unit default).quickened = some q)
    (hsite : site? ⟨h, a, vm, f :: rest⟩ = some fam)
    (hsees : Sees h a (vm.observe (h.unitAt f.unit).name f.position i) f rest (h.unitAt f.unit) i q
      s fam t (step ⟨h, a, vm, f :: rest⟩)) : Visits ⟨h, a, vm, f :: rest⟩ f q fam t := by
  have hkeep := vm.observe_keeps (h.unitAt f.unit).name f.position i
  have hvisit := visit_of_keeps hkeep a f.unit f.position fam t
  refine ⟨rfl, hsite, hstream, ⟨i, s, hi, ?_, hsees.faces⟩, ?_⟩
  · rw [← hsees.sight, hkeep.builtins]
  · rw [hsees.eq, ← hvisit.1]
    exact .of_keeps hvisit.2 (stepPlain_quiet ..)

/-- **What a step does**: it is quiet, or one event happens at one site. -/
theorem step_cases (m : Machine) (hw : World.Sound ⟨m.heap, m.attachments⟩) :
    (m.site? = none ∧ Quiet m.heap m.attachments m.vm m.step.machine) ∨
      ∃ f q fam t, m.Visits f q fam t := by
  obtain ⟨h, a, vm, _ | ⟨f, rest⟩⟩ := m
  · exact .inl ⟨rfl, .refl h a vm []⟩
  rcases hi : (h.unitAt f.unit).instr? f.position with _ | i
  · refine .inl ⟨by simp only [site?, hi], ?_⟩
    rw [step_of_none hi]
    exact leave_quiet h a vm rest .none
  rcases step_sees vm rest hw hi with
    ⟨hsite, hplain⟩ | ⟨q, s, fam, t, hstream, hsite, hsees⟩
  · refine .inl ⟨hsite, ?_⟩
    rw [hplain]
    exact .of_keeps (vm.observe_keeps ..) (stepPlain_quiet ..)
  · exact .inr ⟨f, q, fam, t, hsees.visits hi hstream hsite⟩

end Machine

/-- **A step keeps the world sound.** -/
theorem World.Sound.step {m : Machine} (hw : World.Sound ⟨m.heap, m.attachments⟩) :
    World.Sound ⟨m.step.machine.heap, m.step.machine.attachments⟩ := by
  rcases m.step_cases hw with ⟨-, hquiet⟩ | ⟨f, q, fam, t, hvisit⟩
  · exact hw.quiet hquiet
  · exact (hw.visit hvisit.stream hvisit.finds m.vm).quiet hvisit.quiet

end AdaptiveVM
