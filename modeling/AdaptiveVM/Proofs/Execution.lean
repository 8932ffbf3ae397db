import AdaptiveVM.Assembler
import AdaptiveVM.Machine.Step
import AdaptiveVM.Proofs.Erasure
import AdaptiveVM.Proofs.Heap
import AdaptiveVM.Proofs.Specialize

/-!
What one step can do to the world.

Static instructions are quiet: the heap develops, units may be quickened, and nothing else is learnt
or counted. A step may also execute a site of a quickened stream, if its operands are on the stack,
and then the guard of the site is tried on what it finds, or an attempt is made to specialize.
-/

namespace AdaptiveVM

/-- The machine after a step, whether or not it has come to an end. -/
def Progress.machine : Progress → Machine
  | .running m => m
  | .returned m _ => m
  | .failed m _ => m

/-- Nothing that a site could tell apart, and no count of a family, has changed. -/
structure Vm.Keeps (vm vm' : Vm) : Prop where
  config : vm'.config = vm.config
  builtins : vm'.builtins = vm.builtins
  counts : ∀ family, vm'.stats.family family = vm.stats.family family

namespace Vm.Keeps

variable {vm vm' vm'' : Vm}

lemma refl (vm : Vm) : vm.Keeps vm := ⟨rfl, rfl, fun _ => rfl⟩

lemma trans (a : vm.Keeps vm') (b : vm'.Keeps vm'') : vm.Keeps vm'' :=
  ⟨b.config.trans a.config, b.builtins.trans a.builtins,
    fun f => (b.counts f).trans (a.counts f)⟩

end Vm.Keeps

lemma Vm.observe_keeps (vm : Vm) (unit : String) (position : Nat) (i : Instr) :
    vm.Keeps (vm.observe unit position i) := by
  unfold Vm.observe
  split
  · exact ⟨rfl, rfl, fun _ => rfl⟩
  · exact .refl vm

lemma Stats.family_record (s : Stats) (family family' : Family) (ev : SiteEvent) :
    (s.record family ev).family family' =
      if family' = family then (s.family family').record ev else s.family family' := by
  cases family <;> cases family' <;> rfl

lemma Vm.Keeps.record {vm vm' : Vm} (hk : vm.Keeps vm') (family : Family) (ev : SiteEvent) :
    (vm.record family ev).Keeps (vm'.record family ev) where
  config := hk.config
  builtins := hk.builtins
  counts f := by
    rw [Vm.record, Vm.record, Stats.family_record, Stats.family_record, hk.counts f]

namespace Machine

/-! ### Quiet steps -/

/-- Units may have been quickened, and no quickened form has changed. -/
structure Warmed (h : Heap) (a a' : Array Attachment) : Prop where
  size : a'.size = a.size
  quickened : ∀ u, (a'.getD u default).quickened = (a.getD u default).quickened ∨
    (a.getD u default).quickened = none ∧
      (a'.getD u default).quickened = some (.ofCode (h.unitAt u).instrs)

/-- A machine comes from a state of the world by changes of the heap and by warming up alone. -/
structure Quiet (h : Heap) (a : Array Attachment) (vm : Vm) (m : Machine) : Prop where
  heap : h.Develops m.heap
  warmed : Warmed h a m.attachments
  vm : vm.Keeps m.vm

variable {h h' : Heap} {a a' a'' : Array Attachment} {vm vm' : Vm} {m : Machine}

namespace Warmed

lemma refl (h : Heap) (a : Array Attachment) : Warmed h a a := ⟨rfl, fun _ => .inl rfl⟩

lemma trans (hu : h'.units = h.units) (ha : Warmed h a a') (hb : Warmed h' a' a'') :
    Warmed h a a'' where
  size := hb.size.trans ha.size
  quickened u := by
    have hcode : h'.unitAt u = h.unitAt u := by rw [Heap.unitAt, hu, Heap.unitAt]
    rcases hb.quickened u with hb | ⟨hb, hb'⟩ <;> rcases ha.quickened u with ha | ⟨ha, ha'⟩
    · exact .inl (hb.trans ha)
    · exact .inr ⟨ha, hb.trans ha'⟩
    · exact .inr ⟨ha.symm.trans hb, by rw [hb', hcode]⟩
    · rw [ha'] at hb
      simp at hb

/-- A change beside the quickened forms. -/
lemma modify (h : Heap) (a : Array Attachment) (u : Nat) {f : Attachment → Attachment}
    (hf : ∀ x, (f x).quickened = x.quickened) : Warmed h a (a.modify u f) where
  size := Array.size_modify ..
  quickened k := by
    rw [getD_modify]
    split
    · exact .inl (hf _)
    · exact .inl rfl

lemma install (h : Heap) {u : Nat} (hu : (a.getD u default).quickened = none) :
    Warmed h a (a.modify u (·.install (.ofCode (h.unitAt u).instrs))) where
  size := Array.size_modify ..
  quickened k := by
    rw [getD_modify]
    split
    · next hc =>
      obtain ⟨rfl, -⟩ := hc
      exact .inr ⟨hu, rfl⟩
    · exact .inl rfl

end Warmed

namespace Quiet

lemma refl (h : Heap) (a : Array Attachment) (vm : Vm) (frames : List Frame) :
    Quiet h a vm ⟨h, a, vm, frames⟩ :=
  ⟨.refl h, .refl h a, .refl vm⟩

/-- What goes before may be quiet too. -/
lemma of_keeps (hk : vm.Keeps vm') (hq : Quiet h a vm' m) : Quiet h a vm m :=
  ⟨hq.heap, hq.warmed, hk.trans hq.vm⟩

variable {frames frames' : List Frame}

lemma with_frames (hq : Quiet h a vm m) (frames : List Frame) :
    Quiet h a vm ⟨m.heap, m.attachments, m.vm, frames⟩ :=
  ⟨hq.heap, hq.warmed, hq.vm⟩

lemma with_heap (hq : Quiet h a vm m) (hd : m.heap.Develops h') (frames : List Frame) :
    Quiet h a vm ⟨h', m.attachments, m.vm, frames⟩ :=
  ⟨hq.heap.trans hd, hq.warmed, hq.vm⟩

lemma deliver (hq : Quiet h a vm m) (v : Value) : Quiet h a vm (m.deliver v).machine := by
  obtain ⟨h', a', vm', _ | ⟨f, rest⟩⟩ := m
  · exact hq
  · exact hq.with_frames _

lemma fail (hq : Quiet h a vm m) (e : Error) : Quiet h a vm (m.fail e).machine :=
  ⟨hq.heap, hq.warmed, hq.vm.config, hq.vm.builtins, hq.vm.counts⟩

lemma fault (hq : Quiet h a vm m) (cause : Fault) : Quiet h a vm (m.fault cause).machine :=
  hq.fail _

lemma warmUp (hq : Quiet h a vm m) (u : Nat) (frames : List Frame) :
    Quiet h a vm ⟨m.heap, (warmUp m.heap m.attachments m.vm u).2.1,
      (warmUp m.heap m.attachments m.vm u).2.2, frames⟩ := by
  unfold Machine.warmUp
  split
  · exact hq.with_frames _
  · split
    · exact hq.with_frames _
    · next hnone =>
      have htick : Warmed m.heap m.attachments (m.attachments.modify u Attachment.tick) :=
        .modify _ _ u fun _ => rfl
      have hq' : Quiet h a vm ⟨m.heap, m.attachments.modify u Attachment.tick, m.vm, frames⟩ :=
        ⟨hq.heap, hq.warmed.trans hq.heap.units htick, hq.vm⟩
      dsimp only
      split
      · exact hq'
      · unfold Quickened.quicken
        dsimp only
        split
        · next q hok =>
          -- the unit has not been quickened, so it is now
          have hnone' : ((m.attachments.modify u Attachment.tick).getD u default).quickened =
              none := by
            have hu : (m.attachments.getD u default).quickened = none := by simpa using hnone
            rw [getD_modify]
            split <;> exact hu
          split at hok
          · cases hok
          · cases hok
            exact ⟨hq.heap, hq'.warmed.trans hq.heap.units (.install _ hnone'),
              hq.vm.config, hq.vm.builtins, hq.vm.counts⟩
        · exact ⟨hq.heap, hq'.warmed.trans hq.heap.units (.modify _ _ u fun _ => rfl),
            hq.vm.config, hq.vm.builtins, hq.vm.counts⟩

lemma enter (hq : Quiet h a vm m) (u : Nat) (globals : Ref .mod)
    (locals : Array (Option Value)) : Quiet h a vm (m.enter u globals locals).machine := by
  have hw := hq.warmUp u
  obtain ⟨h', a', vm', frames⟩ := m
  unfold Machine.enter
  dsimp only at hw ⊢
  split
  · exact hq.fail _
  · split
    · next heq =>
      rw [heq] at hw
      exact ⟨hq.heap, (hw []).warmed, (hw []).vm.config, (hw []).vm.builtins,
        (hw []).vm.counts⟩
    · next heq =>
      rw [heq] at hw
      exact (hw frames).fail _

lemma answer (hq : Quiet h a vm m) (b : Ref .builtin) (r : Except Error Value) :
    Quiet h a vm (m.answer b r).machine := by
  cases r with
  | ok v => exact hq.deliver v
  | error e => exact hq.fail _

lemma callBuiltin (hq : Quiet h a vm m) (b : Ref .builtin) (args : List Value) :
    Quiet h a vm (m.callBuiltin b args).machine :=
  (hq.with_heap (Heap.invoke_develops m.heap b args) m.frames).answer b _

lemma construct (hq : Quiet h a vm m) (c : Ref .cls) :
    Quiet h a vm (m.construct c).machine :=
  (hq.with_heap (Heap.instantiate_develops m.heap c) m.frames).deliver _

lemma call (hq : Quiet h a vm m) (callee : Value) (args : List Value) :
    Quiet h a vm (m.call callee args).machine := by
  unfold Machine.call
  split
  · dsimp only
    split
    · exact hq.enter _ _ _
    · exact hq.fault _
  · exact hq.callBuiltin _ args
  · split
    · exact hq.construct _
    · exact hq.fault _
  · exact hq.fault _

end Quiet

variable (h a vm) in
lemma leave_quiet (rest : List Frame) (v : Value) :
    Quiet h a vm (leave h a vm rest v).machine := by
  have hq : Quiet h a vm ⟨h, a, { vm with depth := vm.depth - 1 }, rest⟩ :=
    ⟨.refl h, .refl h a, rfl, rfl, fun _ => rfl⟩
  exact hq.deliver v

variable (h a vm) in
lemma jump_quiet (f : Frame) (rest : List Frame) (target : Nat) :
    Quiet h a vm (jump h a vm f rest target).machine := by
  have hw := (Quiet.refl h a vm (f :: rest)).warmUp f.unit
  unfold jump
  split
  · split
    · next heq =>
      rw [heq] at hw
      exact hw _
    · next heq =>
      rw [heq] at hw
      exact (hw _).fail _
  · exact .refl h a vm _

variable (h a vm) in
lemma carryOut_quiet (rest : List Frame) (e : Effect) :
    Quiet h a vm (carryOut h a vm rest e).machine := by
  cases e with
  | next f => exact .refl h a vm _
  | jump f target => exact jump_quiet h a vm f rest target
  | assign f key value =>
    exact (Quiet.refl h a vm []).with_heap (Heap.assign_develops h f.globals.id key value) _
  | store f receiver key value =>
    exact (Quiet.refl h a vm []).with_heap (Heap.putAttr_develops h receiver key value) _
  | call f callee args => exact (Quiet.refl h a vm (f :: rest)).call callee args
  | leave v => exact leave_quiet h a vm rest v

variable (h a vm) in
lemma stepPlain_quiet (f : Frame) (rest : List Frame) (u : CodeUnit) (op : Opcode) (arg : UInt8) :
    Quiet h a vm (stepPlain h a vm f rest u op arg).machine := by
  unfold stepPlain
  split
  · exact carryOut_quiet h a vm rest _
  · exact (Quiet.refl h a vm (f :: rest)).fail _

/-! ### Sites -/

end Machine

/-- How many values an instruction finds on the stack when it is executed as it should be. -/
def Instr.operands (i : Instr) : Nat :=
  match i.op with
  | .nop | .loadConst | .loadFast | .loadGlobal | .jump => 0
  | .pop | .dup | .storeFast | .storeGlobal | .loadAttr | .jumpIfFalse | .ret => 1
  | .storeAttr | .binaryAdd | .binarySub | .compareLt => 2
  | .call => i.arg.toNat + 1

/-- Every operand of the unit refers to something. -/
def CodeUnit.Checked (u : CodeUnit) : Prop :=
  ∀ i ∈ u.instrs,
    match i.op.operandKind with
    | .none | .argCount => True
    | .const => i.arg.toNat < u.constants.size
    | .name => i.arg.toNat < u.names.size
    | .local => i.arg < u.nlocals
    | .target => i.arg.toNat ≤ u.instrs.size

lemma Assembler.build_checked {b : Assembler} {u : CodeUnit} (h : b.build = .ok u) :
    u.Checked := by
  unfold Assembler.build at h
  split at h
  · cases h
  · next hnone =>
    cases h
    intro i hi
    have hacc : b.accepts i = true := by
      simpa using Array.findIdx?_eq_none_iff.mp hnone i hi
    unfold Assembler.accepts at hacc
    dsimp only
    split <;> simp_all

lemma CodeUnit.Checked.name {u : CodeUnit} (hu : u.Checked) {p : Nat} {i : Instr}
    (hi : u.instr? p = some i) (hk : i.op.operandKind = .name) :
    ∃ key, u.name? i.arg = some key := by
  have hmem : i ∈ u.instrs := Array.mem_of_getElem? hi
  have hlt := hu i hmem
  rw [hk] at hlt
  exact ⟨_, Array.getElem?_eq_getElem hlt⟩

namespace Machine

variable {h : Heap} {a : Array Attachment} {vm : Vm} {m : Machine} {f : Frame} {rest : List Frame}
  {u : CodeUnit} {q : Quickened} {i : Instr} {p : Nat} {fam : Family} {t : Trial}

/-- What an execution can find at a site. -/
inductive Finds (h : Heap) (u : CodeUnit) (q : Quickened) (p : Nat) : Family → Trial → Prop where
  | loadGlobal {member : LoadGlobalMember} {key : String} (globals builtins : Nat) (holds : Bool)
      (op : (q.instrAt p).op = .loadGlobal member) (name : u.name? (q.entryAt p).arg = some key) :
      Finds h u q p .loadGlobal (member.trial holds
        (Specialize.loadGlobal (h.namespaceAt globals) (h.namespaceAt builtins) key))
  | loadAttr {member : LoadAttrMember} {key : String} (receiver : Value) (holds : Bool)
      (op : (q.instrAt p).op = .loadAttr member) (name : u.name? (q.entryAt p).arg = some key) :
      Finds h u q p .loadAttr (member.trial holds (Specialize.loadAttr h receiver key))
  | call {member : CallMember} (callee : Value) (holds : Bool)
      (op : (q.instrAt p).op = .call member) :
      Finds h u q p .call (member.trial holds (Specialize.call h callee (q.entryAt p).arg))
  | binaryAdd {member : BinaryAddMember} (left right : Value) (holds : Bool)
      (op : (q.instrAt p).op = .binaryAdd member) :
      Finds h u q p .binaryAdd (member.trial holds (Specialize.binaryAdd left right))

lemma Finds.family (hf : Finds h u q p fam t) : (q.instrAt p).op.family? = some fam := by
  cases hf with
  | loadGlobal _ _ _ op => rw [op]; rfl
  | loadAttr _ _ op => rw [op]; rfl
  | call _ _ op => rw [op]; rfl
  | binaryAdd _ _ _ op => rw [op]; rfl

lemma Finds.fits (hf : Finds h u q p fam t) : t.Fits (q.instrAt p).op fam := by
  cases hf with
  | loadGlobal _ _ _ op =>
    rw [op]
    exact Trial.loadGlobal_fits _ _ (Specialize.loadGlobal_fits ..)
  | loadAttr _ _ op =>
    rw [op]
    exact Trial.loadAttr_fits _ _ (Specialize.loadAttr_fits ..)
  | call _ _ op =>
    rw [op]
    exact Trial.call_fits _ _ (Specialize.call_fits ..)
  | binaryAdd _ _ _ op =>
    rw [op]
    exact Trial.binaryAdd_fits _ _ (Specialize.binaryAdd_fits ..)

/-- The family of the quickened site that the next step executes, its operands being on the
stack. -/
def site? (m : Machine) : Option Family :=
  match m.frames with
  | [] => none
  | f :: _ =>
    match (m.heap.unitAt f.unit).instr? f.position, f.quick,
      (m.attachments.getD f.unit default).quickened with
    | some i, true, some q =>
      if i.operands ≤ f.stack.length then (q.instrAt f.position).op.family? else none
    | _, _, _ => none

lemma visit_of_keeps {vm' : Vm} (hk : vm.Keeps vm') (a : Array Attachment) (u p : Nat)
    (fam : Family) (t : Trial) :
    (visit a vm' u p fam t).1 = (visit a vm u p fam t).1 ∧
      (visit a vm u p fam t).2.Keeps (visit a vm' u p fam t).2 := by
  unfold visit
  rw [hk.config]
  exact ⟨rfl, hk.record fam _⟩

/-! ### Steps -/

lemma step_of_none (hi : (h.unitAt f.unit).instr? f.position = none) :
    step ⟨h, a, vm, f :: rest⟩ = leave h a vm rest .none := by
  unfold step
  dsimp only
  rw [hi]

lemma step_of_some (hi : (h.unitAt f.unit).instr? f.position = some i) :
    step ⟨h, a, vm, f :: rest⟩ = execute h a
      (vm.observe (h.unitAt f.unit).name f.position i) f rest (h.unitAt f.unit) (fetch a f i) := by
  unfold step
  dsimp only
  rw [hi]

lemma fetch_of_quick (hquick : f.quick = true)
    (hq : (a.getD f.unit default).quickened = some q) (i : Instr) :
    fetch a f i = q.instrAt f.position := by
  rw [fetch, if_pos hquick, hq]

lemma fetch_of_static (hf : f.quick = false ∨ (a.getD f.unit default).quickened = none)
    (i : Instr) : fetch a f i = .plain i := by
  unfold fetch
  rcases hf with hf | hf
  · rw [hf]
    rfl
  · rw [hf]
    split <;> rfl

lemma wordsAt?_of_quick (hquick : f.quick = true)
    (hq : (a.getD f.unit default).quickened = some q) :
    wordsAt? a f = some (q.entryAt f.position, q.versionsAt f.position) := by
  rw [wordsAt?, hquick, hq]

lemma execute_plain (h : Heap) (a : Array Attachment) (vm : Vm) (f : Frame) (rest : List Frame)
    (u : CodeUnit) (i : Instr) :
    execute h a vm f rest u (.plain i) = stepPlain h a vm f rest u i.op i.arg :=
  rfl

lemma execute_site {x : QuickInstr} {e : Entry} {v : VersionPair}
    (hw : wordsAt? a f = some (e, v)) :
    execute h a vm f rest u x =
      match x.op with
      | .plain op => stepPlain h a vm f rest u op x.arg
      | .loadGlobal member => stepLoadGlobal h a vm f rest u member e v
      | .loadAttr member => stepLoadAttr h a vm f rest u member e v
      | .call member => stepCall h a vm f rest u member e
      | .binaryAdd member => stepBinaryAdd h a vm f rest u member := by
  unfold execute
  rw [hw]
  obtain ⟨op, arg⟩ := x
  cases op <;> rfl

lemma popMany?_eq_some (f : Frame) {count : Nat} (hc : count + 1 ≤ f.stack.length) :
    ∃ args callee below, f.popMany? count = some (args, callee :: below) := by
  have hlt : ¬ f.stack.length < count := by omega
  rcases hd : f.stack.drop count with _ | ⟨callee, below⟩
  · have := congrArg List.length hd
    rw [List.length_drop, List.length_nil] at this
    omega
  · exact ⟨_, callee, below, by rw [Frame.popMany?, if_neg hlt, hd]⟩

lemma popMany?_short (f : Frame) {count : Nat} (hc : ¬ count + 1 ≤ f.stack.length) :
    ∀ args callee below, f.popMany? count ≠ some (args, callee :: below) := by
  intro args callee below hp
  unfold Frame.popMany? at hp
  split at hp
  · cases hp
  · have hd : f.stack.drop count = callee :: below := congrArg Prod.snd (Option.some.inj hp)
    have := congrArg List.length hd
    rw [List.length_drop, List.length_cons] at this
    omega

end Machine

end AdaptiveVM
