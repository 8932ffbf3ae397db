import AdaptiveVM.Proofs.Assembly
import AdaptiveVM.Proofs.Bindings
import AdaptiveVM.Proofs.Equivalence
import AdaptiveVM.Proofs.Reachable

/-!
Code that has been built never goes wrong.

Operands are checked once, when a unit is built, and never again. That this is enough rests on what
stays true of every execution: a frame has the local slots its unit declares and reads a stream that
is there, streams erase to their code, namespaces are tidy and instances have the fields of their
shapes. Then every operand refers to something, every index is in range, and the only thing left to
go wrong in the code itself is a stack that runs empty.
-/

namespace AdaptiveVM

/-! ### Arguments -/

namespace Binding

/-- A frame has as many local slots as its unit declares, whatever is bound. -/
lemma size_slots (count : Nat) (values : List Value) : (slots count values).size = count := by
  simp only [slots, List.size_toArray, List.length_append, List.length_map, List.length_take,
    List.length_replicate]
  omega

variable {name : String} {argcount nlocals : Nat} {defaults args : List Value}
  {locals : Array (Option Value)}

lemma size_of_bind (h : bind name argcount nlocals defaults args = .ok locals) :
    locals.size = nlocals := by
  unfold bind at h
  split at h
  · cases h
  · cases h
    exact size_slots _ _

/-- Where arguments bind, the defaults reach as far back as they are needed. -/
lemma bounds_of_bind (h : bind name argcount nlocals defaults args = .ok locals) :
    args.length ≤ argcount ∧ argcount - args.length ≤ defaults.length := by
  unfold bind required at h
  split at h
  · cases h
  · next harity => omega

end Binding

/-! ### Builtins -/

/-- The builtin takes so many arguments. -/
def Builtin.Takes (b : Builtin) (args : List Value) : Prop :=
  ∀ n, b.arity = some n → args.length = n.toNat

/-- Handed as many arguments as it takes, the builtin raises no code fault. -/
def Builtin.Faultless (b : Builtin) : Prop :=
  ∀ f, b.procedure = .compute f → ∀ args c, b.Takes args → f args ≠ .error (.code c)

namespace Builtins

variable {c : CodeFault}

lemma fault_ne_code (cause : Fault) : fault cause ≠ .error (.code c) := nofun

lemma abs_ne_code (v : Value) : abs [v] ≠ .error (.code c) := by
  unfold abs
  split
  · split
    · exact fault_ne_code _
    · exact nofun
  · exact nofun
  · exact fault_ne_code _
  · next hnil => cases hnil

lemma pick_ne_code (name : String) (keep : Bool → Bool) (v w : Value) :
    pick name keep [v, w] ≠ .error (.code c) := by
  unfold pick
  dsimp only
  split
  · exact nofun
  · exact fault_ne_code _

lemma len_ne_code (v : Value) : len [v] ≠ .error (.code c) := by
  unfold len
  split
  · exact nofun
  · exact fault_ne_code _
  · next hnil => cases hnil

lemma str_ne_code (v : Value) : str [v] ≠ .error (.code c) := by
  unfold str
  split
  · exact nofun
  · exact nofun
  · next hnil => cases hnil

lemma sumOnto_ne_code (total : Value) (args : List Value) :
    sumOnto total args ≠ .error (.code c) := by
  induction args generalizing total with
  | nil => exact nofun
  | cons v args ih =>
    unfold sumOnto
    split
    · split
      · exact ih _
      · exact fault_ne_code _
    · split
      · exact ih _
      · exact fault_ne_code _
    · exact fault_ne_code _

/-- The builtins of every machine read no argument that is not there. -/
lemma table_faultless : ∀ e ∈ table, ∀ id, Builtin.Faultless ⟨e.2.1, id, .compute e.2.2⟩ := by
  have hone {f : List Value → Except Error Value} (hf : ∀ v c, f [v] ≠ .error (.code c))
      (id : Token) : Builtin.Faultless ⟨some 1, id, .compute f⟩ := by
    intro g hg args c harity
    cases hg
    obtain ⟨v, rfl⟩ := List.length_eq_one_iff.mp (harity 1 rfl)
    exact hf v c
  have htwo (name : String) (keep : Bool → Bool) (id : Token) :
      Builtin.Faultless ⟨some 2, id, .compute (pick name keep)⟩ := by
    intro g hg args c harity
    cases hg
    obtain ⟨v, w, rfl⟩ := List.length_eq_two.mp (harity 2 rfl)
    exact pick_ne_code name keep v w
  intro e he id
  simp only [table, List.mem_cons, List.not_mem_nil, or_false] at he
  rcases he with rfl | rfl | rfl | rfl | rfl | rfl | rfl
  · exact hone (fun v _ => abs_ne_code v) id
  · exact htwo "min" _ id
  · exact htwo "max" _ id
  · exact hone (fun v _ => len_ne_code v) id
  · exact hone (fun v _ => str_ne_code v) id
  · exact hone (fun v _ => by unfold type; exact nofun) id
  · intro g hg args c _
    cases hg
    exact sumOnto_ne_code _ args

end Builtins

/-! ### Heaps -/

/-- The units of a heap have a slot for every parameter, its namespaces are tidy, and its builtins
raise no code fault, apart from those in `H`. -/
structure Heap.Steady (H : Builtin → Prop) (h : Heap) : Prop where
  roomy : ∀ u, (h.unitAt u).argcount ≤ (h.unitAt u).nlocals
  tidy : ∀ n, (h.namespaceAt n).Tidy
  natives : ∀ i, (h.builtins.getD i default).Faultless ∨ H (h.builtins.getD i default)

lemma Heap.builtins_extendShape (h : Heap) (s : Nat) (key : String) :
    (h.extendShape s key).2.builtins = h.builtins := by
  rcases extendShape_cases h s key with ⟨next, -, he⟩ | ⟨-, he⟩ | ⟨-, he⟩
  · rw [he]
  · rw [he]
    rfl
  · rw [he]

/-- Only making a builtin changes the table of builtins. -/
lemma Heap.builtins_serve (h : Heap) {r : Request}
    (hr : ∀ name arity p, r ≠ .newBuiltin name arity p) : (h.serve r).builtins = h.builtins := by
  cases r with
  | newBuiltin name arity p => exact absurd rfl (hr name arity p)
  | newFunction unit globals defaults => dsimp only [serve]; split <;> rfl
  | extendShape shape key => exact builtins_extendShape h shape key
  | assign n key value => dsimp only [serve, assign]; split <;> rfl
  | remove n key => dsimp only [serve, remove]; split <;> rfl
  | setField o key value =>
    dsimp only [serve, setField]
    split
    · rfl
    · exact builtins_extendShape h _ key
  | _ => rfl

namespace Heap.Steady

variable {H : Builtin → Prop} {h h' : Heap}

lemma empty (H : Builtin → Prop) : ({} : Heap).Steady H where
  roomy u := by
    rw [unitAt, getD_of_size_le (by simp)]
    exact UInt8.le_refl 0
  tidy := holds_empty.tidy
  natives i := by
    rw [getD_of_size_le (by simp)]
    refine .inl fun f hf args c _ hc => ?_
    cases hf
    cases hc

/-- A request that makes no builtin. -/
lemma serve_other (hh : h.Steady H) {r : Request}
    (hr : ∀ name arity p, r ≠ .newBuiltin name arity p) : (h.serve r).Steady H := by
  have hunits : (h.serve r).units = h.units := (serve_develops h r).units
  refine ⟨fun u => ?_, (serve_serves h r).tidy hh.tidy, ?_⟩
  · rw [unitAt, hunits]
    exact hh.roomy u
  · rw [builtins_serve h hr]
    exact hh.natives

lemma newBuiltin (hh : h.Steady H) (name : String) {arity : Option UInt8} {p : Procedure}
    (hb : ∀ id, Builtin.Faultless ⟨arity, id, p⟩ ∨ H ⟨arity, id, p⟩) :
    (h.newBuiltin name arity p).2.Steady H where
  roomy := hh.roomy
  tidy := hh.tidy
  natives i := by
    show ((h.builtins.push _).getD i default).Faultless ∨ H ((h.builtins.push _).getD i default)
    rw [getD_push]
    split
    · exact hb _
    · exact hh.natives i

lemma newUnit (hh : h.Steady H) {u : CodeUnit} (hu : u.argcount ≤ u.nlocals) :
    (h.newUnit u).2.Steady H where
  roomy k := by
    show ((h.units.push u).getD k default).argcount ≤ ((h.units.push u).getD k default).nlocals
    rw [getD_push]
    split
    · exact hu
    · exact hh.roomy k
  tidy := hh.tidy
  natives := hh.natives

/-- Only the streams of operands have moved on. -/
lemma sources (hh : h.Steady H) (s : Array Random.Source) : { h with sources := s }.Steady H :=
  ⟨hh.roomy, hh.tidy, hh.natives⟩

lemma register (hh : h.Steady H) (m : Ref .mod) (name : String) {arity : Option UInt8}
    {f : List Value → Except Error Value} (hf : ∀ id, Builtin.Faultless ⟨arity, id, .compute f⟩) :
    (Builtins.register h m name arity f).Steady H :=
  (hh.newBuiltin name fun id => .inl (hf id)).serve_other (r := .assign m.id name _) nofun

lemma foldl_register (m : Ref .mod)
    (es : List (String × Option UInt8 × (List Value → Except Error Value)))
    (hes : ∀ e ∈ es, ∀ id, Builtin.Faultless ⟨e.2.1, id, .compute e.2.2⟩) (hh : h.Steady H) :
    (es.foldl (fun h e => Builtins.register h m e.1 e.2.1 e.2.2) h).Steady H := by
  induction es generalizing h with
  | nil => exact hh
  | cons e es ih =>
    exact ih (fun e' he' => hes e' (List.mem_cons_of_mem _ he'))
      (hh.register m e.1 (hes e List.mem_cons_self))

lemma install (hh : h.Steady H) : (Builtins.install h).2.Steady H := by
  have hes := Builtins.table_faultless
  unfold Builtins.install
  generalize Builtins.table = es at hes ⊢
  exact foldl_register _ es hes (hh.serve_other (r := .newModule "builtins") nofun)

lemma create (hh : h.Steady H) (config : Config) : (Vm.create config h).2.Steady H := by
  have hi := hh.install
  rcases hb : Builtins.install h with ⟨builtins, h'⟩
  rw [hb] at hi
  rw [Vm.create, hb]
  exact hi

end Heap.Steady

/-- A call raises a code fault: it calls a builtin in `H` with as many arguments as that takes, and
this is what the builtin answers. -/
def Heap.Raises (H : Builtin → Prop) (h : Heap) (callee : Value) (args : List Value)
    (c : CodeFault) : Prop :=
  ∃ b f, callee = .builtin b ∧ H (h.builtinAt b) ∧ (h.builtinAt b).procedure = .compute f ∧
    (h.builtinAt b).Takes args ∧ f args = .error (.code c)

/-- Only the builtins in `H` answer with a code fault. -/
lemma Heap.Steady.raises {H : Builtin → Prop} {h : Heap} (hh : h.Steady H) {b : Ref .builtin}
    {args : List Value} {c : CodeFault} (hc : (h.invoke b args).1 = .error (.code c)) :
    h.Raises H (.builtin b) args c := by
  have hperform (ht : (h.builtinAt b).Takes args)
      (hc : (h.perform (h.builtinAt b).procedure args).1 = .error (.code c)) :
      h.Raises H (.builtin b) args c := by
    rcases hp : (h.builtinAt b).procedure with f | source
    · rw [hp] at hc
      rcases hh.natives b.id with hfaultless | hmade
      · exact absurd hc (hfaultless f hp args c ht)
      · exact ⟨b, f, rfl, hmade, hp, ht, hc⟩
    · rw [hp] at hc
      cases hc
  unfold invoke at hc
  dsimp only at hc
  split at hc
  · next hany => exact hperform (fun n hn => by rw [hany] at hn; cases hn) hc
  · next arity hsome =>
    split at hc
    · next hlen =>
      refine hperform (fun n hn => ?_) hc
      cases hsome.symm.trans hn
      exact hlen
    · cases hc

/-! ### What executions do to heaps -/

/-- What a step can do to a heap: it serves one request that makes no builtin, or takes an operand
from a stream. -/
inductive Heap.Written (h : Heap) : Heap → Prop where
  | same : Written h h
  | served (r : Request) (hr : ∀ name arity p, r ≠ .newBuiltin name arity p) :
      Written h (h.serve r)
  | drawn (s : Array Random.Source) : Written h { h with sources := s }

lemma Heap.Steady.written {H : Builtin → Prop} {h h' : Heap} (hh : h.Steady H)
    (hw : h.Written h') : h'.Steady H := by
  cases hw with
  | same => exact hh
  | served r hr => exact hh.serve_other hr
  | drawn s => exact hh.sources s

namespace Heap

lemma perform_written (h : Heap) (p : Procedure) (args : List Value) :
    h.Written (h.perform p args).2 := by
  cases p with
  | compute f => exact .same
  | draw source => exact .drawn _

lemma invoke_written (h : Heap) (b : Ref .builtin) (args : List Value) :
    h.Written (h.invoke b args).2 := by
  unfold invoke
  dsimp only
  split
  · exact perform_written h _ args
  · split
    · exact perform_written h _ args
    · exact .same

lemma putAttr_written (h : Heap) (receiver : Value) (key : String) (value : Value) :
    h.Written (Operation.putAttr h receiver key value) := by
  cases receiver with
  | inst o => exact .served (.setField o key value) nofun
  | cls c => exact .served (.assign (h.classAt c).attributes key value) nofun
  | mod m => exact .served (.assign m.id key value) nofun
  | _ => exact .same

end Heap

namespace Machine

variable {h : Heap} {a : Array Attachment} {vm : Vm} {f : Frame} {rest : List Frame}

lemma heap_deliver (m : Machine) (v : Value) : (m.deliver v).machine.heap = m.heap := by
  obtain ⟨h, a, vm, _ | ⟨f, rest⟩⟩ := m <;> rfl

lemma heap_settle (m : Machine) (r : Except Fault Value) :
    (m.settle r).machine.heap = m.heap := by
  cases r with
  | ok v => exact heap_deliver m v
  | error cause => rfl

lemma heap_answer (m : Machine) (b : Ref .builtin) (r : Except Error Value) :
    (m.answer b r).machine.heap = m.heap := by
  cases r with
  | ok v => exact heap_deliver m v
  | error e => rfl

lemma heap_enter (m : Machine) (u : Nat) (globals : Ref .mod) (locals : Array (Option Value)) :
    (m.enter u globals locals).machine.heap = m.heap := by
  unfold enter
  dsimp only
  split
  · rfl
  · split <;> rfl

lemma perform_written (m : Machine) (b : Ref .builtin) (args : List Value) :
    m.heap.Written (m.perform b args).machine.heap := by
  unfold perform
  dsimp only
  rw [heap_answer]
  exact Heap.perform_written _ _ args

lemma call_written (m : Machine) (callee : Value) (args : List Value) :
    m.heap.Written (m.call callee args).machine.heap := by
  unfold call
  split
  · dsimp only
    split
    · rw [heap_enter]
      exact .same
    · exact .same
  · unfold callBuiltin
    dsimp only
    rw [heap_answer]
    exact Heap.invoke_written _ _ args
  · split
    · unfold construct
      dsimp only
      rw [heap_deliver]
      exact .served (.instantiate _) nofun
    · exact .same
  · exact .same

lemma carryOut_written (rest : List Frame) (e : Effect) :
    h.Written (carryOut h a vm rest e).machine.heap := by
  cases e with
  | next f => exact .same
  | jump f target =>
    show h.Written (jump h a vm f rest target).machine.heap
    unfold jump
    split
    · split <;> exact .same
    · exact .same
  | assign f key value => exact .served (.assign f.globals.id key value) nofun
  | store f receiver key value => exact Heap.putAttr_written h receiver key value
  | call f callee args => exact call_written ⟨h, a, vm, f :: rest⟩ callee args
  | leave v =>
    show h.Written (leave h a vm rest v).machine.heap
    rw [leave, heap_deliver]
    exact .same

lemma stepPlain_written (f : Frame) (rest : List Frame) (u : CodeUnit) (op : Opcode)
    (arg : UInt8) : h.Written (stepPlain h a vm f rest u op arg).machine.heap := by
  unfold stepPlain
  split
  · exact carryOut_written rest _
  · exact .same

lemma stepCall_written (f : Frame) (rest : List Frame) (u : CodeUnit) (member : CallMember)
    (e : Entry) : h.Written (stepCall h a vm f rest u member e).machine.heap := by
  unfold stepCall
  split
  · dsimp only
    split
    · rw [enterExact, heap_enter]
      exact .same
    · exact perform_written ⟨h, _, _, _⟩ _ _
    · exact call_written ⟨h, _, _, _⟩ _ _
  · exact .same

lemma execute_written (f : Frame) (rest : List Frame) (u : CodeUnit) (i : QuickInstr) :
    h.Written (execute h a vm f rest u i).machine.heap := by
  unfold execute
  split
  · exact stepPlain_written f rest u _ i.arg
  · split
    · exact .same
    · split
      · exact stepPlain_written f rest u _ i.arg
      · unfold stepLoadGlobal
        split
        · exact .same
        · dsimp only
          split
          · rw [heap_deliver]; exact .same
          · rw [heap_settle]; exact .same
      · unfold stepLoadAttr
        split
        · exact .same
        · dsimp only
          split
          · exact .same
          · split
            · rw [heap_deliver]; exact .same
            · rw [heap_settle]; exact .same
      · exact stepCall_written f rest u _ _
      · unfold stepBinaryAdd
        split
        · rw [heap_settle]; exact .same
        · exact .same

/-- What a step writes. -/
lemma step_written (m : Machine) : m.heap.Written m.step.machine.heap := by
  obtain ⟨h, a, vm, _ | ⟨f, rest⟩⟩ := m
  · exact .same
  · unfold step
    dsimp only
    split
    · unfold leave
      rw [heap_deliver]
      exact .same
    · exact execute_written f rest _ _

end Machine

lemma Invocation.start_written (w : World) (vm : Vm) (i : Invocation) :
    w.heap.Written (i.start w vm).machine.heap := by
  cases i with
  | run unit globals =>
    unfold start Machine.start
    dsimp only
    split
    · exact .same
    · rw [Machine.heap_enter]
      exact .same
  | call callee args => exact Machine.call_written (Machine.idle w vm) callee args

/-! ### Frames -/

/-- The frame has the local slots its unit declares, and the stream it reads is there. -/
structure Frame.FitsUnit (h : Heap) (a : Array Attachment) (f : Frame) : Prop where
  locals : f.locals.size = (h.unitAt f.unit).nlocals.toNat
  stream : f.quick = true → f.unit < a.size → (a.getD f.unit default).quickened.isSome = true

namespace Frame.FitsUnit

variable {h h' : Heap} {a a' : Array Attachment} {f f' : Frame}

/-- The heap and the streams may change, but no unit does, and no stream goes away. -/
lemma mono (hf : f.FitsUnit h a) (hu : h'.units = h.units) (hs : a'.size = a.size)
    (ha : (a.getD f.unit default).quickened.isSome = true →
      (a'.getD f.unit default).quickened.isSome = true) : f.FitsUnit h' a' where
  locals := by rw [Heap.unitAt, hu]; exact hf.locals
  stream hq hlt := ha (hf.stream hq (hs ▸ hlt))

/-- The frame goes on in the same unit. -/
lemma congr (hf : f.FitsUnit h a) (hu : f'.unit = f.unit) (hl : f'.locals.size = f.locals.size)
    (hq : f'.quick = f.quick) : f'.FitsUnit h a where
  locals := by rw [hl, hu]; exact hf.locals
  stream := by rw [hq, hu]; exact hf.stream

end Frame.FitsUnit

/-- All frames of the machine fit their units, and the interpreter counts all of them. -/
structure Machine.FramesFit (m : Machine) : Prop where
  frames : ∀ f ∈ m.frames, f.FitsUnit m.heap m.attachments
  depth : m.frames.length ≤ m.vm.depth

/-- The execution goes on with frames that fit, or has ended with no code fault but those in `K`. -/
def Progress.Proper (K : CodeFault → Prop) : Progress → Prop
  | .running m => m.FramesFit
  | .returned _ _ => True
  | .failed _ e => ∀ c, e = .code c → K c

lemma Error.through_eq_code {e : Error} {fs : List TraceFrame} {c : CodeFault}
    (h : e.through fs = .code c) : e = .code c := by
  cases e with
  | fault cause trace => cases h
  | _ => exact h

lemma Machine.Warmed.isSome {h : Heap} {a a' : Array Attachment} (hw : Machine.Warmed h a a')
    {u : Nat} (hs : (a.getD u default).quickened.isSome = true) :
    (a'.getD u default).quickened.isSome = true := by
  rcases hw.quickened u with hsame | ⟨-, hnew⟩
  · rw [hsame, hs]
  · rw [hnew]
    rfl

lemma Vm.depth_observe (vm : Vm) (unit : String) (position : Nat) (i : Instr) :
    (vm.observe unit position i).depth = vm.depth := by
  unfold observe
  split <;> rfl

namespace Machine

/-- A frame that a warm-up tick sends to the quickened stream finds it there. -/
lemma isSome_of_warmUp {h : Heap} {a a' : Array Attachment} {vm vm' : Vm} {u : Nat}
    (hw : warmUp h a vm u = (.ok true, a', vm')) :
    u < a.size → (a'.getD u default).quickened.isSome = true := by
  unfold warmUp at hw
  split at hw
  · cases hw
  · split at hw
    · next hsome =>
      cases hw
      exact fun _ => hsome
    · dsimp only at hw
      split at hw
      · cases hw
      · split at hw
        · cases hw
          intro hu
          rw [getD_modify, if_pos ⟨rfl, by simpa using hu⟩]
          rfl
        · cases hw

lemma depth_warmUp (h : Heap) (a : Array Attachment) (vm : Vm) (u : Nat) :
    (warmUp h a vm u).2.2.depth = vm.depth := by
  unfold warmUp
  split
  · rfl
  · split
    · rfl
    · dsimp only
      split
      · rfl
      · split <;> rfl

lemma error_of_warmUp {h : Heap} {a a' : Array Attachment} {vm vm' : Vm} {u : Nat} {e : Error}
    (hw : warmUp h a vm u = (.error e, a', vm')) (c : CodeFault) : e ≠ .code c := by
  unfold warmUp at hw
  split at hw
  · cases hw
  · split at hw
    · cases hw
    · dsimp only at hw
      split at hw
      · cases hw
      · split at hw
        · cases hw
        · cases hw
          exact nofun

variable {K : CodeFault → Prop} {m : Machine} {h : Heap} {a : Array Attachment} {vm : Vm}
  {f : Frame} {rest : List Frame} {u : CodeUnit}

lemma fail_proper (m : Machine) {e : Error} (he : ∀ c, e = .code c → K c) : (m.fail e).Proper K :=
  fun c hc => he c (Error.through_eq_code hc)

lemma fault_proper (m : Machine) (cause : Fault) : (m.fault cause).Proper K :=
  fail_proper m fun _ hc => by cases hc

namespace FramesFit

lemma deliver (hm : m.FramesFit) (v : Value) : (m.deliver v).Proper K := by
  obtain ⟨h, a, vm, _ | ⟨f, rest⟩⟩ := m
  · trivial
  · refine ⟨fun f' hf' => ?_, hm.depth⟩
    rcases List.mem_cons.mp hf' with rfl | hrest
    · exact (hm.frames f List.mem_cons_self).congr rfl rfl rfl
    · exact hm.frames f' (List.mem_cons_of_mem _ hrest)

/-- The heap may have changed, as long as no unit has. -/
lemma with_heap (hm : m.FramesFit) {h' : Heap} (hu : h'.units = m.heap.units) :
    FramesFit ⟨h', m.attachments, m.vm, m.frames⟩ :=
  ⟨fun f hf => (hm.frames f hf).mono hu rfl id, hm.depth⟩

lemma enter (hm : m.FramesFit) {u : Nat} (globals : Ref .mod) {locals : Array (Option Value)}
    (hl : locals.size = (m.heap.unitAt u).nlocals.toNat) :
    (m.enter u globals locals).Proper K := by
  have hquiet := (Quiet.refl m.heap m.attachments m.vm []).warmUp u []
  obtain ⟨h, a, vm, frames⟩ := m
  unfold Machine.enter
  dsimp only at hquiet hl ⊢
  split
  · exact fail_proper _ nofun
  · split
    · next quick a' vm' hw =>
      have hdepth : vm'.depth = vm.depth := by rw [← depth_warmUp h a vm u, hw]
      rw [hw] at hquiet
      refine ⟨fun f hf => ?_, ?_⟩
      · rcases List.mem_cons.mp hf with rfl | hrest
        · refine ⟨hl, fun hq hlt => ?_⟩
          cases hq
          exact isSome_of_warmUp hw (hquiet.warmed.size ▸ hlt)
        · exact (hm.frames f hrest).mono rfl hquiet.warmed.size hquiet.warmed.isSome
      · have := hm.depth
        simp only [List.length_cons] at this ⊢
        omega
    · next e a' vm' hw => exact fail_proper _ fun c hc => absurd hc (error_of_warmUp hw c)

lemma answer (hm : m.FramesFit) (b : Ref .builtin) {r : Except Error Value}
    (hr : ∀ c, r = .error (.code c) → K c) : (m.answer b r).Proper K := by
  cases r with
  | ok v => exact hm.deliver v
  | error e => exact fail_proper m fun c hc => hr c (by rw [Error.through_eq_code hc])

lemma callBuiltin (hm : m.FramesFit) {H : Builtin → Prop} (hh : m.heap.Steady H) (b : Ref .builtin)
    (args : List Value) (hK : ∀ c, m.heap.Raises H (.builtin b) args c → K c) :
    (m.callBuiltin b args).Proper K := by
  have hunits := (Heap.invoke_develops m.heap b args).units
  exact (hm.with_heap hunits).answer b fun c hc => hK c (hh.raises hc)

lemma construct (hm : m.FramesFit) (c : Ref .cls) : (m.construct c).Proper K :=
  (hm.with_heap (Heap.instantiate_develops m.heap c).units).deliver _

/-- Any call. -/
lemma call (hm : m.FramesFit) {H : Builtin → Prop} (hh : m.heap.Steady H) (callee : Value)
    (args : List Value) (hK : ∀ c, m.heap.Raises H callee args c → K c) :
    (m.call callee args).Proper K := by
  unfold Machine.call
  split
  · dsimp only
    split
    · next locals hbind => exact hm.enter _ (Binding.size_of_bind hbind)
    · exact fault_proper m _
  · exact hm.callBuiltin hh _ args hK
  · split
    · exact hm.construct _
    · exact fault_proper m _
  · exact fault_proper m _

end FramesFit

lemma leave_proper (hm : FramesFit ⟨h, a, vm, f :: rest⟩) (v : Value) :
    (leave h a vm rest v).Proper K := by
  refine FramesFit.deliver (m := ⟨h, a, { vm with depth := vm.depth - 1 }, rest⟩) ⟨?_, ?_⟩ v
  · exact fun f' hf' => hm.frames f' (List.mem_cons_of_mem _ hf')
  · have := hm.depth
    simp only [List.length_cons] at this ⊢
    omega

lemma jump_proper (hm : FramesFit ⟨h, a, vm, f :: rest⟩) (target : Nat) :
    (jump h a vm f rest target).Proper K := by
  have hquiet := (Quiet.refl h a vm []).warmUp f.unit []
  have hdepth := depth_warmUp h a vm f.unit
  unfold jump
  dsimp only at hquiet
  split
  · split
    · next quick a' vm' hw =>
      rw [hw] at hquiet hdepth
      refine ⟨fun f' hf' => ?_, ?_⟩
      · rcases List.mem_cons.mp hf' with rfl | hrest
        · refine ⟨(hm.frames f List.mem_cons_self).locals, fun hq hlt => ?_⟩
          cases hq
          exact isSome_of_warmUp hw (hquiet.warmed.size ▸ hlt)
        · exact (hm.frames f' (List.mem_cons_of_mem _ hrest)).mono rfl hquiet.warmed.size
            hquiet.warmed.isSome
      · rw [hdepth]
        exact hm.depth
    · next e a' vm' hw => exact fail_proper _ fun c hc => absurd hc (error_of_warmUp hw c)
  · refine ⟨fun f' hf' => ?_, hm.depth⟩
    rcases List.mem_cons.mp hf' with rfl | hrest
    · exact (hm.frames f List.mem_cons_self).congr rfl rfl rfl
    · exact hm.frames f' (List.mem_cons_of_mem _ hrest)

/-- The innermost frame is replaced by one of the same unit. -/
lemma FramesFit.replace (hm : FramesFit ⟨h, a, vm, f :: rest⟩) {f' : Frame} (hu : f'.unit = f.unit)
    (hl : f'.locals.size = f.locals.size) (hq : f'.quick = f.quick) :
    FramesFit ⟨h, a, vm, f' :: rest⟩ := by
  refine ⟨fun f'' hf'' => ?_, hm.depth⟩
  rcases List.mem_cons.mp hf'' with rfl | hrest
  · exact (hm.frames f List.mem_cons_self).congr hu hl hq
  · exact hm.frames f'' (List.mem_cons_of_mem _ hrest)

end Machine

namespace CodeUnit.Checked

variable {u : CodeUnit} {i : Instr}

lemma constant (hu : u.Checked) (hi : i ∈ u.instrs) (hk : i.op.operandKind = .const) :
    u.constant? i.arg ≠ none := by
  have hlt := hu i hi
  rw [hk] at hlt
  rw [constant?, Array.getElem?_eq_getElem hlt]
  exact nofun

lemma name_of_mem (hu : u.Checked) (hi : i ∈ u.instrs) (hk : i.op.operandKind = .name) :
    u.name? i.arg ≠ none := by
  have hlt := hu i hi
  rw [hk] at hlt
  rw [name?, Array.getElem?_eq_getElem hlt]
  exact nofun

lemma slot (hu : u.Checked) (hi : i ∈ u.instrs) (hk : i.op.operandKind = .local) :
    i.arg.toNat < u.nlocals.toNat := by
  have hlt := hu i hi
  rw [hk] at hlt
  exact UInt8.lt_iff_toNat_lt.mp hlt

end CodeUnit.Checked

/-- The frame that goes on after an effect. -/
def Effect.frame? : Effect → Option Frame
  | .next f | .jump f _ | .assign f _ _ | .store f _ _ _ | .call f _ _ => some f
  | .leave _ => none

namespace Frame

variable {f f' : Frame} {h : Heap} {builtins : Ref .mod} {u : CodeUnit} {op : Opcode} {arg : UInt8}
  {e : Effect} {c : CodeFault}

/-- An instruction goes on in the same unit, with as many local slots. -/
lemma effect_frame (he : f.effect h builtins u op arg = .ok e) (hf : e.frame? = some f') :
    f'.unit = f.unit ∧ f'.locals.size = f.locals.size ∧ f'.quick = f.quick := by
  cases op <;> simp only [effect] at he <;> repeat' split at he
  all_goals cases he
  all_goals cases hf <;> exact ⟨rfl, by simp [push], rfl⟩

/-- The call that an instruction makes: the value that is called, and the arguments. -/
def call? (f : Frame) (i : Instr) : Option (Value × List Value) :=
  match i.op with
  | .call =>
    match f.popMany? i.arg.toNat with
    | some (args, callee :: _) => some (callee, args)
    | _ => none
  | _ => none

lemma op_of_call? {i : Instr} {c : Value × List Value} (hc : f.call? i = some c) :
    i.op = .call := by
  unfold call? at hc
  split at hc
  · assumption
  · cases hc

lemma call?_of_effect {i : Instr} {callee : Value} {args : List Value}
    (he : f.effect h builtins u i.op i.arg = .ok (.call f' callee args)) :
    f.call? i = some (callee, args) := by
  obtain ⟨op, arg⟩ := i
  cases op <;> simp only [effect] at he <;> repeat' split at he
  all_goals cases he
  next hs => simp only [call?, hs]

/-- An instruction whose operand refers to something fails for want of operands only. -/
lemma effect_code {i : Instr} (hu : u.Checked) (hi : i ∈ u.instrs)
    (hl : f.locals.size = u.nlocals.toNat)
    (he : f.effect h builtins u i.op i.arg = .error (.code c)) : c = .stackUnderflow u.name := by
  have hconst (hk : i.op.operandKind = .const) : u.constant? i.arg ≠ none := hu.constant hi hk
  have hname (hk : i.op.operandKind = .name) : u.name? i.arg ≠ none := hu.name_of_mem hi hk
  have hslot (hk : i.op.operandKind = .local) : i.arg.toNat < f.locals.size :=
    hl ▸ hu.slot hi hk
  obtain ⟨op, arg⟩ := i
  cases op <;> simp only [effect] at he <;> repeat' split at he
  all_goals try cases he
  all_goals
    first
    | rfl
    | exact absurd ‹u.constant? arg = none› (hconst rfl)
    | exact absurd ‹u.name? arg = none› (hname rfl)
    | exact absurd (hslot rfl) ‹¬ arg.toNat < f.locals.size›
    | exact absurd (hslot rfl) (Nat.not_lt.mpr (Array.getElem?_eq_none_iff.mp ‹_›))

end Frame

namespace Machine

variable {H : Builtin → Prop} {K : CodeFault → Prop} {m : Machine} {h : Heap}
  {a : Array Attachment} {vm : Vm} {f : Frame} {rest : List Frame} {u : CodeUnit}

/-- The call that the next step makes. -/
def call? (m : Machine) : Option (Value × List Value) :=
  m.frames.head?.bind fun f => ((m.heap.unitAt f.unit).instr? f.position).bind f.call?

lemma carryOut_proper {e : Effect} (hh : h.Steady H)
    (hm : ∀ f', e.frame? = some f' → FramesFit ⟨h, a, vm, f' :: rest⟩)
    (hl : e.frame? = none → FramesFit ⟨h, a, vm, f :: rest⟩)
    (hK : ∀ f' callee args c, e = .call f' callee args → h.Raises H callee args c → K c) :
    (carryOut h a vm rest e).Proper K := by
  cases e with
  | next f' => exact (hm f' rfl).replace rfl rfl rfl
  | jump f' target => exact jump_proper (hm f' rfl) target
  | assign f' key value =>
    have hunits := (Heap.assign_develops h f'.globals.id key value).units
    exact ((hm f' rfl).with_heap hunits).replace rfl rfl rfl
  | store f' receiver key value =>
    have hunits := (Heap.putAttr_develops h receiver key value).units
    exact ((hm f' rfl).with_heap hunits).replace rfl rfl rfl
  | call f' callee args => exact (hm f' rfl).call hh callee args fun c => hK f' callee args c rfl
  | leave v => exact leave_proper (hl rfl) v

/-- A static instruction of a checked unit. -/
lemma stepPlain_proper (hK : ∀ name, K (.stackUnderflow name))
    (hm : FramesFit ⟨h, a, vm, f :: rest⟩) (hh : h.Steady H) (hu : (h.unitAt f.unit).Checked)
    {i : Instr} (hi : i ∈ (h.unitAt f.unit).instrs)
    (hcall : ∀ callee args c, f.call? i = some (callee, args) → h.Raises H callee args c → K c) :
    (stepPlain h a vm f rest (h.unitAt f.unit) i.op i.arg).Proper K := by
  unfold stepPlain
  split
  · next e he =>
    refine carryOut_proper hh (fun f' hf' => ?_) (fun _ => hm) fun f' callee args c hc => ?_
    · obtain ⟨hunit, hlocals, hquick⟩ := Frame.effect_frame he hf'
      exact hm.replace hunit hlocals hquick
    · subst hc
      exact hcall callee args c (Frame.call?_of_effect he)
  · next e he =>
    refine fail_proper _ fun c hc => ?_
    subst hc
    rw [Frame.effect_code hu hi (hm.frames f List.mem_cons_self).locals he]
    exact hK _

/-- What happens at a site moves no frame. -/
lemma FramesFit.visit (hm : FramesFit ⟨h, a, vm, f :: rest⟩) (fam : Family) (t : Trial) :
    FramesFit ⟨h, (Machine.visit a vm f.unit f.position fam t).1,
      (Machine.visit a vm f.unit f.position fam t).2, f :: rest⟩ := by
  refine ⟨fun f' hf' => (hm.frames f' hf').mono rfl (Array.size_modify ..) fun hs => ?_, hm.depth⟩
  show ((a.modify f.unit _).getD f'.unit default).quickened.isSome = true
  rw [getD_modify]
  split
  · rw [Attachment.apply, Option.isSome_map]
    exact hs
  · exact hs

/-- **A step** of a machine whose frames fit, in a sound world: a code fault is an empty stack, or
what the builtin says that is called. -/
theorem step_proper (hK : ∀ name, K (.stackUnderflow name)) (hm : m.FramesFit)
    (hh : m.heap.Steady H) (hw : World.Sound ⟨m.heap, m.attachments⟩)
    (hcall : ∀ callee args c, m.call? = some (callee, args) → m.heap.Raises H callee args c → K c) :
    m.step.Proper K := by
  obtain ⟨h, a, vm, _ | ⟨f, rest⟩⟩ := m
  · trivial
  rcases hi : (h.unitAt f.unit).instr? f.position with _ | i
  · rw [step_of_none hi]
    exact leave_proper hm _
  have hmem : i ∈ (h.unitAt f.unit).instrs := Array.mem_of_getElem? hi
  have hm' : FramesFit ⟨h, a, vm.observe (h.unitAt f.unit).name f.position i, f :: rest⟩ :=
    ⟨hm.frames, by rw [Vm.depth_observe]; exact hm.depth⟩
  simp only [call?, List.head?_cons, Option.bind_some, hi] at hcall
  rcases step_sees vm rest hw hi with ⟨-, hplain⟩ | ⟨q, s, fam, t, -, -, hsees⟩
  · rw [hplain]
    exact stepPlain_proper hK hm' hh (hw.checked f.unit) hmem hcall
  · rw [hsees.eq]
    exact stepPlain_proper hK (hm'.visit fam t) hh (hw.checked f.unit) hmem hcall

end Machine

lemma Invocation.start_proper {H : Builtin → Prop} {K : CodeFault → Prop} (w : World)
    (hh : w.heap.Steady H) (vm : Vm) (i : Invocation)
    (hcall : ∀ callee args c, i = .call callee args → w.heap.Raises H callee args c → K c) :
    (i.start w vm).Proper K := by
  have hidle : (Machine.idle w vm).FramesFit := ⟨nofun, Nat.zero_le _⟩
  cases i with
  | run unit globals =>
    unfold start Machine.start
    dsimp only
    split
    · exact Machine.fault_proper _ _
    · exact hidle.enter _ (Binding.size_slots _ _)
  | call callee args => exact hidle.call hh callee args fun c => hcall callee args c rfl

/-! ### Executions -/

/-- The code of a function. -/
def Heap.codeOf (h : Heap) (f : Ref .function) : CodeUnit := h.unitAt (h.functionAt f).unit

/-- Everything that the next step of a machine may index or subtract is in range. -/
structure Machine.InRange (m : Machine) : Prop where
  /-- Leaving a frame counts one frame less. -/
  depth : m.frames.length ≤ m.vm.depth
  /-- The quickened stream reaches as far as the static one. -/
  fetch : ∀ f ∈ m.frames, f.quick = true → f.position < (m.heap.unitAt f.unit).size →
    ∃ q, (m.attachments.getD f.unit default).quickened = some q ∧ f.position < q.instrs.size
  locals : ∀ f ∈ m.frames, ∀ i ∈ (m.heap.unitAt f.unit).instrs, i.op.operandKind = .local →
    i.arg.toNat < f.locals.size
  /-- The two words of a site. -/
  words : ∀ u q, (m.attachments.getD u default).quickened = some q →
    ∀ p, q.hasEntries p = true → Quickened.base p (q.instrAt p) + 1 < q.cache.size
  /-- The slot that binding or removing a bound name writes. -/
  slots : ∀ n key i, (m.heap.namespaceAt n).indexOf? key = some i →
    i < (m.heap.namespaceAt n).slots.size
  /-- The field that storing a field again writes. -/
  fields : ∀ o key i, (m.heap.shapeOf o).indexOf? key = some i →
    i < (m.heap.instanceAt o).fields.size
  /-- The defaults that a call takes from the end, and the slots for all parameters. -/
  defaults : ∀ f args locals,
    Binding.bind f.name (m.heap.codeOf f).argcount.toNat (m.heap.codeOf f).nlocals.toNat
        (m.heap.functionAt f).defaults args = .ok locals →
      args.length ≤ (m.heap.codeOf f).argcount.toNat ∧
      (m.heap.codeOf f).argcount.toNat - args.length ≤ (m.heap.functionAt f).defaults.length ∧
      (m.heap.codeOf f).argcount ≤ (m.heap.codeOf f).nlocals
  /-- The arguments of a call whose guard holds, which nobody counts again. -/
  arguments : ∀ (member : CallMember) (e : Entry) callee (args : List Value),
    args.length = e.arg.toNat →
      (∀ f, member.probe e m.heap callee = some (.function f) →
        args.length = (m.heap.codeOf f).argcount.toNat ∧
        args.length ≤ (m.heap.codeOf f).nlocals.toNat) ∧
      ∀ b, member.probe e m.heap callee = some (.builtin b) →
        (m.heap.builtinAt b).arity.map UInt8.toNat = some args.length

lemma Machine.FramesFit.inRange {H : Builtin → Prop} {m : Machine} (hm : m.FramesFit)
    (hh : m.heap.Steady H) (hw : World.Sound ⟨m.heap, m.attachments⟩) : m.InRange where
  depth := hm.depth
  fetch f hf hquick hpos := by
    have hunit : f.unit < m.attachments.size := by
      have hsize : m.attachments.size = m.heap.units.size := hw.size
      by_contra hc
      rw [Heap.unitAt, getD_of_size_le (by omega)] at hpos
      exact Nat.not_lt_zero _ hpos
    obtain ⟨q, hq⟩ := Option.isSome_iff_exists.mp ((hm.frames f hf).stream hquick hunit)
    refine ⟨q, hq, ?_⟩
    have hlen : q.instrs.size = (m.heap.unitAt f.unit).instrs.size :=
      (hw.streams f.unit q hq).erases.size
    rw [hlen]
    exact hpos
  locals f hf i hi hk := by
    rw [(hm.frames f hf).locals]
    exact (hw.checked f.unit).slot hi hk
  words u q hq p hp := (hw.streams u q hq).erases.laid.inside p hp
  slots n key i hi := (hh.tidy n).lt_size hi
  fields o key i hi :=
    (Shape.lt_size_of_indexOf? hi).trans_le (hw.heap.shaped.fields o.id).2
  defaults f args locals hbind :=
    ⟨(Binding.bounds_of_bind hbind).1, (Binding.bounds_of_bind hbind).2, hh.roomy _⟩
  arguments member e callee args hlen := by
    refine ⟨fun f hp => ?_, fun b hp => ?_⟩
    · rcases CallMember.probe_cases hp with ⟨f', hfast, -, hcount⟩ | ⟨b, hfast, -⟩
      · cases hfast
        have hroom := UInt8.le_iff_toNat_le.mp (hh.roomy (m.heap.functionAt f).unit)
        rw [Heap.codeOf]
        rw [hcount] at hroom ⊢
        exact ⟨hlen, hlen.trans_le hroom⟩
      · cases hfast
    · rcases CallMember.probe_cases hp with ⟨f, hfast, -⟩ | ⟨b', hfast, -, harity⟩
      · cases hfast
      · cases hfast
        rw [harity, Option.map_some, hlen]

namespace Progress

/-- The execution some steps further on, or where it has ended by then. -/
def advance : Nat → Progress → Progress
  | 0, p => p
  | n + 1, .running m => advance n m.step
  | _ + 1, p => p

/-- An execution that fails has failed at once, or at some step. -/
lemma failed_of_advance {p : Progress} {n : Nat} {m : Machine} {e : Error}
    (h : p.advance n = .failed m e) :
    p = .failed m e ∨ ∃ k m', p.advance k = .running m' ∧ m'.step = .failed m e := by
  induction n generalizing p with
  | zero => exact .inl h
  | succ n ih =>
    cases p with
    | running m' =>
      rcases ih (p := m'.step) h with hstep | ⟨k, m'', hk, hstep⟩
      · exact .inr ⟨0, m', rfl, hstep⟩
      · exact .inr ⟨k + 1, m'', hk, hstep⟩
    | returned m' v => cases h
    | failed m' e' => exact .inl h

/-- The execution is in a sound world with a steady heap, and its frames fit until it ends. -/
structure Safe (H : Builtin → Prop) (p : Progress) : Prop where
  frames : ∀ m, p = .running m → m.FramesFit
  steady : p.machine.heap.Steady H
  sound : World.Sound ⟨p.machine.heap, p.machine.attachments⟩

variable {H : Builtin → Prop}

lemma framesFit_of_proper {K : CodeFault → Prop} {p : Progress} (hp : p.Proper K) (m : Machine)
    (hm : p = .running m) : m.FramesFit := by
  rw [hm] at hp
  exact hp

lemma Safe.step {m : Machine} (hm : (Progress.running m).Safe H) : m.step.Safe H where
  frames := framesFit_of_proper (m.step_proper (K := fun _ => True) (fun _ => trivial)
    (hm.frames m rfl) hm.steady hm.sound fun _ _ _ _ _ => trivial)
  steady := hm.steady.written m.step_written
  sound := hm.sound.step

/-- **Executions stay safe**, for any number of steps. -/
theorem Safe.advance (n : Nat) {p : Progress} (hp : p.Safe H) : (p.advance n).Safe H := by
  induction n generalizing p with
  | zero => exact hp
  | succ n ih =>
    cases p with
    | running m => exact ih hp.step
    | returned m v => exact hp
    | failed m e => exact hp

end Progress

namespace Process

variable {H : Builtin → Prop} {p : Process}

lemma perform_steady (hh : p.world.heap.Steady H) {a : Action}
    (hunit : ∀ code, a = .addUnit code → code.argcount ≤ code.nlocals)
    (hnative : ∀ name arity p, a = .request (.newBuiltin name arity p) →
      ∀ id, H ⟨arity, id, p⟩) : (p.perform a).world.heap.Steady H := by
  cases a with
  | request r =>
    by_cases hr : ∃ name arity p, r = .newBuiltin name arity p
    · obtain ⟨name, arity, p, rfl⟩ := hr
      exact hh.newBuiltin name fun id => .inr (hnative name arity p rfl id)
    · exact hh.serve_other fun name arity p hc => hr ⟨name, arity, p, hc⟩
  | addUnit code =>
    dsimp only [perform]
    split
    · next u hu =>
      obtain ⟨hargs, hlocals⟩ := Assembler.build_declared hu
      refine hh.newUnit ?_
      rw [hargs, hlocals]
      exact hunit code rfl
    · exact hh
  | quicken unit limit => exact hh
  | newVm config =>
    dsimp only [perform]
    split
    · next config' _ =>
      have hnew := hh.create config'
      generalize Vm.create config' p.world.heap = made at hnew ⊢
      exact hnew
    · exact hh
  | setMode vm mode => exact hh
  | resetStats vm => exact hh
  | watch vm observed => exact hh
  | invoke vm invocation =>
    dsimp only [perform]
    split
    · exact hh.written (invocation.start_written p.world _)
    · exact hh
  | step =>
    dsimp only [perform]
    split
    · next m _ hm =>
      rw [show p.world.heap = m.heap from (machine?_eq_some hm).1.symm] at hh
      exact hh.written m.step_written
    · exact hh

lemma after_steady (hh : p.world.heap.Steady H) (as : List Action)
    (hunit : ∀ code, .addUnit code ∈ as → code.argcount ≤ code.nlocals)
    (hnative : ∀ name arity p, .request (.newBuiltin name arity p) ∈ as →
      ∀ id, H ⟨arity, id, p⟩) : (p.after as).world.heap.Steady H := by
  induction as generalizing p with
  | nil => exact hh
  | cons a as ih =>
    refine ih (perform_steady hh ?_ ?_) ?_ ?_
    · exact fun code hc => hunit code (hc ▸ List.mem_cons_self)
    · exact fun name arity p hc => hnative name arity p (hc ▸ List.mem_cons_self)
    · exact fun code hc => hunit code (List.mem_cons_of_mem _ hc)
    · exact fun name arity p hc => hnative name arity p (List.mem_cons_of_mem _ hc)

/-- The host has made the builtin. -/
def Makes (as : List Action) (b : Builtin) : Prop :=
  ∃ name, .request (.newBuiltin name b.arity b.procedure) ∈ as

/-- **Built code never goes wrong**: whatever hosts and interpreters have done before, with units
written by calls of the assembler, an execution that ends in a code fault has run out of stack, or
its last call is of a builtin of the host that raises the fault itself; and until it ends, all it
indexes or subtracts is in range. -/
theorem built_code_safe (as : List Action)
    (hbuilt : ∀ code, .addUnit code ∈ as → ∃ name calls, code = .written name calls) (vm : Vm)
    (i : Invocation) (n : Nat) :
    let w := (({} : Process).after as).world
    let out := (i.start w vm).advance n
    (∀ m c, out = .failed m (.code c) →
      (∃ unit, c = .stackUnderflow unit) ∨
      (∃ callee args, i = .call callee args ∧ i.start w vm = out ∧
        w.heap.Raises (Makes as) callee args c) ∨
      ∃ k m' callee args, (i.start w vm).advance k = .running m' ∧ m'.step = out ∧
        m'.call? = some (callee, args) ∧ m'.heap.Raises (Makes as) callee args c) ∧
      ∀ m, out = .running m → m.InRange := by
  intro w out
  have hsteady : w.heap.Steady (Makes as) := by
    refine after_steady (.empty _) as (fun code hc => ?_) fun name arity p hp id => ⟨name, hp⟩
    obtain ⟨name, calls, rfl⟩ := hbuilt code hc
    exact Assembler.written_roomy name calls
  have hsound : w.Sound := after_sound World.sound_empty as
  have hstart : (i.start w vm).Safe (Makes as) :=
    ⟨Progress.framesFit_of_proper (i.start_proper (K := fun _ => True) w hsteady vm
        fun _ _ _ _ _ => trivial),
      hsteady.written (i.start_written w vm), hsound.quiet (i.start_quiet w vm)⟩
  refine ⟨fun m c hc => ?_, fun m hm => ?_⟩
  · rcases Progress.failed_of_advance hc with hnow | ⟨k, m', hk, hstep⟩
    · -- the execution is a call that fails at once
      have hproper := i.start_proper w hsteady vm (K := fun c =>
        (∃ unit, c = .stackUnderflow unit) ∨ ∃ callee args, i = .call callee args ∧
          w.heap.Raises (Makes as) callee args c)
        fun callee args c hi hraises => .inr ⟨callee, args, hi, hraises⟩
      rw [hnow] at hproper
      rcases hproper c rfl with hstack | ⟨callee, args, hi, hraises⟩
      · exact .inl hstack
      · exact .inr (.inl ⟨callee, args, hi, hnow.trans hc.symm, hraises⟩)
    · have hm' := hstart.advance k
      rw [hk] at hm'
      have hproper := m'.step_proper (K := fun c =>
        (∃ unit, c = .stackUnderflow unit) ∨ ∃ callee args, m'.call? = some (callee, args) ∧
          m'.heap.Raises (Makes as) callee args c) (fun name => .inl ⟨name, rfl⟩)
        (hm'.frames m' rfl) hm'.steady hm'.sound
        fun callee args c hcall hraises => .inr ⟨callee, args, hcall, hraises⟩
      rw [hstep] at hproper
      rcases hproper c rfl with hstack | ⟨callee, args, hcall, hraises⟩
      · exact .inl hstack
      · exact .inr (.inr ⟨k, m', callee, args, hk, hstep.trans hc.symm, hcall, hraises⟩)
  · have hrunning : (Progress.running m).Safe (Makes as) := hm ▸ hstart.advance n
    exact (hrunning.frames m rfl).inRange hrunning.steady hrunning.sound

/-- In the middle of a run of a unit whose sites are all specialized. -/
theorem built_code_safe_doubling :
    let i : Invocation := .run 0 ⟨2, "numbers"⟩
    let p := ({} : Process).after doubling
    (∀ code, .addUnit code ∈ doubling → ∃ name calls, code = .written name calls) ∧
      ∃ m, (i.start p.world (p.vmAt 0)).advance 2 = .running m ∧ m.InRange := by
  intro i p
  have hbuilt : ∀ code, .addUnit code ∈ doubling → ∃ name calls, code = .written name calls := by
    intro code hc
    have hcode : code = double := by simpa [doubling, runFor] using hc
    rw [hcode]
    exact ⟨"double", [.emitName .loadGlobal "x", .emitName .loadGlobal "x", .emitOp .binaryAdd,
      .emitOp .ret], by cbv⟩
  have hsafe := (built_code_safe doubling hbuilt (p.vmAt 0) i 2).2
  have hopen : (((i.start p.world (p.vmAt 0)).advance 2).run 0).isNone = true := by
    decide +kernel
  cases hout : (i.start p.world (p.vmAt 0)).advance 2 with
  | running m => exact ⟨hbuilt, m, rfl, hsafe m hout⟩
  | returned m v => rw [hout] at hopen; cases hopen
  | failed m e => rw [hout] at hopen; cases hopen

end Process

end AdaptiveVM
