import AdaptiveVM.Proofs.Budget
import AdaptiveVM.Proofs.Sightings

/-!
The call chains that errors carry.

Whoever sees which instructions are executed, and how many frames are active each time, can tell the
chain of calls at any moment: an instruction puts its own line on top of those of the frames below,
which still stand where they were when they called. An error that ends an execution carries just
this chain. In front of it there is the line of a builtin if one was called and answered with the
error. A frame adds its line to faults and does nothing to other errors, so what the inner frames
end with does not depend on those around them.
-/

namespace AdaptiveVM

/-! ### Errors on their way out -/

namespace Error

lemma through_append (e : Error) (inner outer : List TraceFrame) :
    e.through (inner ++ outer) = (e.through inner).through outer := by
  cases e with
  | fault cause trace => rw [through, through, through, List.append_assoc]
  | _ => rfl

lemma through_nil (e : Error) : e.through [] = e := by
  cases e with
  | fault cause trace => rw [through, List.append_nil]
  | _ => rfl

/-- Only faults keep track of frames. -/
lemma through_of_not_fault {e : Error} {lines : List TraceFrame}
    (he : (e.through lines).faultKind? = none) : e.through lines = e := by
  cases e with
  | fault cause trace => cases he
  | _ => rfl

/-- The error has come through no frame. -/
def Fresh (e : Error) : Prop := ∀ cause trace, e = .fault cause trace → trace = []

lemma fresh_ofFault (cause : Fault) : (ofFault cause).Fresh := by
  intro _ _ he
  cases he
  rfl

lemma fresh_limit (cause : Limit) : (limit cause).Fresh := by
  intro _ _ he
  cases he

lemma fresh_code (cause : CodeFault) : (code cause).Fresh := by
  intro _ _ he
  cases he

end Error

/-- The execution goes on above other frames: its value is delivered to them, and its error comes
through them. -/
def Progress.onto (outer : List Frame) : Progress → Progress
  | .running ⟨h, a, vm, frames⟩ => .running ⟨h, a, vm, frames ++ outer⟩
  | .returned ⟨h, a, vm, _⟩ v => Machine.deliver ⟨h, a, vm, outer⟩ v
  | .failed ⟨h, a, vm, _⟩ e => Machine.fail ⟨h, a, vm, outer⟩ e

/-! ### Outer frames make no difference -/

namespace Machine

variable (h : Heap) (a : Array Attachment) (vm : Vm) (frames outer : List Frame)

lemma deliver_onto (v : Value) :
    deliver ⟨h, a, vm, frames ++ outer⟩ v = (deliver ⟨h, a, vm, frames⟩ v).onto outer := by
  cases frames <;> rfl

lemma fail_onto (e : Error) :
    fail ⟨h, a, vm, frames ++ outer⟩ e = (fail ⟨h, a, vm, frames⟩ e).onto outer := by
  simp only [fail, Progress.onto, List.length_append, List.map_append, Error.through_append,
    Nat.sub_sub]

lemma settle_onto (r : Except Fault Value) :
    settle ⟨h, a, vm, frames ++ outer⟩ r = (settle ⟨h, a, vm, frames⟩ r).onto outer := by
  cases r with
  | ok v => exact deliver_onto ..
  | error cause => exact fail_onto ..

lemma enter_onto (u : Nat) (globals : Ref .mod) (locals : Array (Option Value)) :
    enter ⟨h, a, vm, frames ++ outer⟩ u globals locals =
      (enter ⟨h, a, vm, frames⟩ u globals locals).onto outer := by
  unfold enter
  dsimp only
  split
  · exact fail_onto ..
  · split
    · rfl
    · exact fail_onto ..

lemma answer_onto (b : Ref .builtin) (r : Except Error Value) :
    answer ⟨h, a, vm, frames ++ outer⟩ b r = (answer ⟨h, a, vm, frames⟩ b r).onto outer := by
  cases r with
  | ok v => exact deliver_onto ..
  | error e => exact fail_onto ..

lemma call_onto (callee : Value) (args : List Value) :
    call ⟨h, a, vm, frames ++ outer⟩ callee args =
      (call ⟨h, a, vm, frames⟩ callee args).onto outer := by
  unfold call
  split
  · dsimp only
    split
    · exact enter_onto ..
    · exact fail_onto ..
  · exact answer_onto ..
  · split
    · exact deliver_onto ..
    · exact fail_onto ..
  · exact fail_onto ..

lemma jump_onto (f : Frame) (target : Nat) :
    jump h a vm f (frames ++ outer) target = (jump h a vm f frames target).onto outer := by
  unfold jump
  split
  · split
    · rfl
    · exact fail_onto h _ _ (f :: frames) outer _
  · rfl

lemma carryOut_onto (e : Effect) :
    carryOut h a vm (frames ++ outer) e = (carryOut h a vm frames e).onto outer := by
  cases e with
  | next f => rfl
  | jump f target => exact jump_onto ..
  | assign f key value => rfl
  | store f receiver key value => rfl
  | call f callee args => exact call_onto h a vm (f :: frames) outer callee args
  | leave v => exact deliver_onto ..

variable (f : Frame) (u : CodeUnit)

lemma stepPlain_onto (op : Opcode) (arg : UInt8) :
    stepPlain h a vm f (frames ++ outer) u op arg =
      (stepPlain h a vm f frames u op arg).onto outer := by
  unfold stepPlain
  split
  · exact carryOut_onto ..
  · exact fail_onto h a vm (f :: frames) outer _

lemma stepLoadGlobal_onto (member : LoadGlobalMember) (e : Entry) (v : VersionPair) :
    stepLoadGlobal h a vm f (frames ++ outer) u member e v =
      (stepLoadGlobal h a vm f frames u member e v).onto outer := by
  unfold stepLoadGlobal
  split
  · exact fail_onto h a vm (f :: frames) outer _
  · dsimp only
    split
    · exact deliver_onto h _ _ (f :: frames) outer _
    · exact settle_onto h _ _ (f :: frames) outer _

lemma stepLoadAttr_onto (member : LoadAttrMember) (e : Entry) (v : VersionPair) :
    stepLoadAttr h a vm f (frames ++ outer) u member e v =
      (stepLoadAttr h a vm f frames u member e v).onto outer := by
  unfold stepLoadAttr
  split
  · exact fail_onto h a vm (f :: frames) outer _
  · next receiver below _ =>
    dsimp only
    split
    · exact fail_onto h a vm ({ f with stack := below } :: frames) outer _
    · split
      · exact deliver_onto h _ _ ({ f with stack := below } :: frames) outer _
      · exact settle_onto h _ _ ({ f with stack := below } :: frames) outer _

lemma stepCall_onto (member : CallMember) (e : Entry) :
    stepCall h a vm f (frames ++ outer) u member e =
      (stepCall h a vm f frames u member e).onto outer := by
  unfold stepCall
  split
  · next args callee below _ =>
    dsimp only
    split
    · exact enter_onto h _ _ ({ f with stack := below } :: frames) outer ..
    · exact answer_onto _ _ _ ({ f with stack := below } :: frames) outer ..
    · exact call_onto h _ _ ({ f with stack := below } :: frames) outer ..
  · exact fail_onto h a vm (f :: frames) outer _

lemma stepBinaryAdd_onto (member : BinaryAddMember) :
    stepBinaryAdd h a vm f (frames ++ outer) u member =
      (stepBinaryAdd h a vm f frames u member).onto outer := by
  unfold stepBinaryAdd
  split
  · next right left below _ =>
    exact settle_onto h _ _ ({ f with stack := below } :: frames) outer _
  · exact fail_onto h a vm (f :: frames) outer _

lemma execute_onto (i : QuickInstr) :
    execute h a vm f (frames ++ outer) u i = (execute h a vm f frames u i).onto outer := by
  obtain ⟨op, arg⟩ := i
  rcases hw : wordsAt? a f with _ | ⟨e, v⟩
  · cases op with
    | plain op => exact stepPlain_onto ..
    | _ =>
      simp only [execute, hw]
      exact fail_onto h a vm (f :: frames) outer _
  · rw [execute_site hw, execute_site hw]
    cases op with
    | plain op => exact stepPlain_onto ..
    | loadGlobal member => exact stepLoadGlobal_onto ..
    | loadAttr member => exact stepLoadAttr_onto ..
    | call member => exact stepCall_onto ..
    | binaryAdd member => exact stepBinaryAdd_onto ..

/-- **Outer frames make no difference** to a step. -/
theorem step_onto :
    step ⟨h, a, vm, f :: frames ++ outer⟩ = (step ⟨h, a, vm, f :: frames⟩).onto outer := by
  rw [List.cons_append]
  rcases hi : (h.unitAt f.unit).instr? f.position with _ | i
  · rw [step_of_none hi, step_of_none hi]
    exact deliver_onto ..
  · rw [step_of_some hi, step_of_some hi]
    exact execute_onto ..

end Machine

/-! ### What is raised -/

/-- A builtin that answers with an error. -/
structure BuiltinFailure where
  builtin : String
  error : Error
  deriving DecidableEq

/-- The failure of a call, if it is a builtin that is called, be it for what the builtin does or for
the number of its arguments. -/
def Heap.failure? (h : Heap) (callee : Value) (args : List Value) : Option BuiltinFailure :=
  match callee with
  | .builtin b =>
    match (h.invoke b args).1 with
    | .error e => some ⟨b.name, e⟩
    | .ok _ => none
  | _ => none

/-- The failure of the builtin that an instruction calls. -/
def Frame.failure? (f : Frame) (h : Heap) (i : Instr) : Option BuiltinFailure :=
  match i.op with
  | .call =>
    match f.popMany? i.arg.toNat with
    | some (args, callee :: _) => h.failure? callee args
    | _ => none
  | _ => none

/-- The failure of the builtin that an effect calls. -/
def Effect.failure? (h : Heap) : Effect → Option BuiltinFailure
  | .call _ callee args => h.failure? callee args
  | _ => none

def Invocation.failure? (h : Heap) : Invocation → Option BuiltinFailure
  | .run .. => none
  | .call callee args => h.failure? callee args

/-- The error as it comes to the innermost frame: with the line of the builtin that has failed, and
else with no line at all. -/
def Error.Raised (e : Error) : Option BuiltinFailure → Prop
  | some x => e = x.error.through [.native x.builtin]
  | none => e.Fresh

/-- Where a call leads that no frame waits for. -/
inductive Progress.Opens (x : Option BuiltinFailure) : Progress → Prop where
  | enters {m : Machine} {g : Frame} (frames : m.frames = [g]) : Opens x (.running m)
  | returns (m : Machine) (v : Value) : Opens x (.returned m v)
  | fails (m : Machine) {e : Error} (raised : e.Raised x) : Opens x (.failed m e)

namespace Machine

variable {h : Heap} {a : Array Attachment} {vm : Vm}

lemma fail_opens {x : Option BuiltinFailure} {e : Error} (he : e.Raised x) :
    (fail ⟨h, a, vm, []⟩ e).Opens x := by
  refine .fails _ ?_
  rw [List.map_nil, Error.through_nil]
  exact he

lemma enter_opens (u : Nat) (globals : Ref .mod) (locals : Array (Option Value)) :
    (enter ⟨h, a, vm, []⟩ u globals locals).Opens none := by
  unfold enter
  dsimp only
  split
  · exact fail_opens (Error.fresh_limit _)
  · rcases warmUp_cases h a vm u {} with ⟨quick, a', vm', hw, -⟩ | ⟨-, _, _, a', vm', hw⟩
    · rw [hw]
      exact .enters rfl
    · rw [hw]
      exact fail_opens (Error.fresh_limit _)

variable (h a vm) in
/-- An error of a call has a line only if a builtin has failed. -/
lemma call_opens (callee : Value) (args : List Value) :
    (call ⟨h, a, vm, []⟩ callee args).Opens (h.failure? callee args) := by
  cases callee with
  | function f =>
    dsimp only [call, Heap.failure?]
    split
    · exact enter_opens ..
    · exact fail_opens (Error.fresh_ofFault _)
  | builtin b =>
    simp only [call, callBuiltin, Heap.failure?]
    rcases (h.invoke b args).1 with e | v
    · exact fail_opens rfl
    · exact .returns ..
  | cls c =>
    dsimp only [call, Heap.failure?]
    split
    · exact .returns ..
    · exact fail_opens (Error.fresh_ofFault _)
  | _ => exact fail_opens (Error.fresh_ofFault _)

lemma start_opens (w : World) (vm : Vm) (i : Invocation) :
    (i.start w vm).Opens (i.failure? w.heap) := by
  cases i with
  | run unit globals =>
    dsimp only [Invocation.start, start]
    split
    · exact fail_opens (Error.fresh_ofFault _)
    · exact enter_opens ..
  | call callee args => exact call_opens w.heap w.attachments vm callee args

end Machine

/-! ### One step of the innermost frame -/

namespace Frame

variable {f f' : Frame} {h : Heap} {builtins : Ref .mod} {u : CodeUnit} {i : Instr} {e : Effect}

/-- The frame stands at the instruction until that is done. -/
lemma effect_stands (he : f.effect h builtins u i.op i.arg = .ok e) (hf : e.frame? = some f') :
    f'.unit = f.unit ∧ f'.position = f.position := by
  obtain ⟨op, arg⟩ := i
  cases op <;> simp only [effect] at he <;> repeat' split at he
  all_goals cases he
  all_goals cases hf <;> exact ⟨rfl, rfl⟩

/-- The line of a frame is that of its unit and its position. -/
lemma traceFrame_congr {h' : Heap} (hu : f'.unit = f.unit) (hp : f'.position = f.position)
    (hh : h'.unitAt f.unit = h.unitAt f.unit) : f'.traceFrame h' = f.traceFrame h := by
  rw [traceFrame, traceFrame, hu, hp, hh]

/-- What an instruction comes to on its own has no line yet. -/
lemma effect_fresh {e : Error} (he : f.effect h builtins u i.op i.arg = .error e) :
    e.Fresh ∧ f.failure? h i = none := by
  obtain ⟨op, arg⟩ := i
  cases op <;> simp only [effect] at he <;> repeat' split at he
  all_goals cases he
  all_goals first | exact ⟨Error.fresh_ofFault _, rfl⟩ | exact ⟨Error.fresh_code _, rfl⟩ | skip
  next hnone =>
  refine ⟨Error.fresh_code _, ?_⟩
  simp only [failure?]

/-- A call fails as its callee does, and nothing else calls. -/
lemma effect_failure (he : f.effect h builtins u i.op i.arg = .ok e) :
    f.failure? h i = e.failure? h := by
  obtain ⟨op, arg⟩ := i
  cases op <;> simp only [effect] at he <;> repeat' split at he
  all_goals cases he
  all_goals first | rfl | skip
  next hs => simp only [failure?, hs, Effect.failure?]

end Frame

/-- What becomes of a frame that executes an instruction and has no other frame around it. -/
inductive Progress.Proceeds (h : Heap) (f : Frame) (x : Option BuiltinFailure) :
    Progress → Prop where
  | stays {m : Machine} {f' : Frame} (frames : m.frames = [f']) : Proceeds h f x (.running m)
  | calls {m : Machine} {g f' : Frame} (frames : m.frames = [g, f']) (unit : f'.unit = f.unit)
      (position : f'.position = f.position) : Proceeds h f x (.running m)
  | leaves (m : Machine) (v : Value) : Proceeds h f x (.returned m v)
  | fails (m : Machine) {e : Error} (raised : e.Raised x) :
      Proceeds h f x (.failed m (e.through [f.traceFrame h]))

namespace Machine

variable {h : Heap} {a : Array Attachment} {vm : Vm} {f f' : Frame} {x : Option BuiltinFailure}

lemma fail_proceeds {e : Error} (he : e.Raised x) (hu : f'.unit = f.unit)
    (hp : f'.position = f.position) : (fail ⟨h, a, vm, [f']⟩ e).Proceeds h f x := by
  have hline : f'.traceFrame h = f.traceFrame h := Frame.traceFrame_congr hu hp rfl
  rw [fail, List.map_singleton, hline]
  exact .fails _ he

lemma jump_proceeds (target : Nat) (hu : f'.unit = f.unit) (hp : f'.position = f.position) :
    (jump h a vm f' [] target).Proceeds h f none := by
  unfold jump
  split
  · rcases warmUp_cases h a vm f'.unit {} with ⟨quick, a', vm', hw, -⟩ | ⟨-, _, _, a', vm', hw⟩
    · rw [hw]
      exact .stays rfl
    · rw [hw]
      exact fail_proceeds (Error.fresh_limit _) hu hp
  · exact .stays rfl

/-- A call that has not come to an end leaves the frame where it is. -/
lemma call_proceeds (callee : Value) (args : List Value) (hu : f'.unit = f.unit)
    (hp : f'.position = f.position) :
    (call ⟨h, a, vm, [f']⟩ callee args).Proceeds h f (h.failure? callee args) := by
  have hopens := call_opens h a vm callee args
  have hunits := ((Quiet.refl h a vm []).call callee args).heap.units
  have honto := call_onto h a vm [] [f'] callee args
  rw [List.nil_append] at honto
  rw [honto]
  generalize call ⟨h, a, vm, []⟩ callee args = out at hopens hunits ⊢
  cases hopens with
  | @enters m g frames =>
    obtain ⟨h', a', vm', frames'⟩ := m
    cases frames
    exact .calls rfl hu hp
  | returns m v => exact .stays rfl
  | @fails m e raised =>
    have hsame : m.heap.units = h.units := hunits
    have hline : f'.traceFrame m.heap = f.traceFrame h := by
      refine Frame.traceFrame_congr hu hp ?_
      rw [Heap.unitAt, hsame, Heap.unitAt]
    rw [Progress.onto, fail, List.map_singleton, hline]
    exact .fails _ raised

lemma stepPlain_proceeds (u : CodeUnit) (i : Instr) :
    (stepPlain h a vm f [] u i.op i.arg).Proceeds h f (f.failure? h i) := by
  unfold stepPlain
  split
  · next e he =>
    rw [Frame.effect_failure he]
    have hstands (f') (hf' : e.frame? = some f') := Frame.effect_stands he hf'
    cases e with
    | next f' => exact .stays rfl
    | jump f' target => exact jump_proceeds target (hstands f' rfl).1 (hstands f' rfl).2
    | assign f' key value => exact .stays rfl
    | store f' receiver key value => exact .stays rfl
    | call f' callee args => exact call_proceeds callee args (hstands f' rfl).1 (hstands f' rfl).2
    | leave v => exact .leaves _ v
  · next e he =>
    obtain ⟨hfresh, hnone⟩ := Frame.effect_fresh he
    rw [hnone]
    exact fail_proceeds hfresh rfl rfl

/-- **One step** comes to the same in every mode and at every stage of a site. -/
lemma step_proceeds {i : Instr} (vm : Vm) (hw : World.Sound ⟨h, a⟩)
    (hi : (h.unitAt f.unit).instr? f.position = some i) :
    (step ⟨h, a, vm, [f]⟩).Proceeds h f (f.failure? h i) := by
  rcases step_sees vm [] hw hi with ⟨-, hplain⟩ | ⟨q, s, fam, t, -, -, hsees⟩
  · rw [hplain]
    exact stepPlain_proceeds _ i
  · rw [hsees.eq]
    exact stepPlain_proceeds _ i

end Machine

/-! ### Chains of calls -/

/-- An instruction that has been executed: which of the executions under way it belongs to, how many
frames were active, and where it stands. -/
structure Executed where
  run : Nat
  depth : Nat
  unit : String
  position : Nat
  deriving DecidableEq

namespace Executed

/-- The lines when an instruction is executed: its own, above those of the frames below. -/
def above (lines : List TraceFrame) (x : Executed) : List TraceFrame :=
  .code x.unit x.position :: lines.drop (lines.length + 1 - x.depth)

/-- The chain of calls of an execution, as the instructions that have been executed tell. -/
def chain (run : Nat) (log : List Executed) : List TraceFrame :=
  (log.filter (·.run = run)).foldl above []

variable {run : Nat} {o : Option Executed}

lemma chain_append_self (log : List Executed) (ho : ∀ x ∈ o, x.run = run) :
    chain run (log ++ o.toList) = o.elim (chain run log) (above (chain run log)) := by
  rcases o with _ | x
  · rw [Option.toList_none, List.append_nil, Option.elim_none]
  · obtain rfl := ho x rfl
    rw [Option.toList_some, chain, List.filter_append,
      List.filter_cons_of_pos (by exact decide_eq_true rfl), List.filter_nil, List.foldl_append]
    rfl

lemma chain_append_other (log : List Executed) (ho : ∀ x ∈ o, x.run ≠ run) :
    chain run (log ++ o.toList) = chain run log := by
  rcases o with _ | x
  · rw [Option.toList_none, List.append_nil]
  · rw [Option.toList_some, chain, List.filter_append,
      List.filter_cons_of_neg (by simpa using ho x rfl), List.filter_nil, List.append_nil]
    rfl

end Executed

/-- The frames that wait for the innermost one stand where the lines say. -/
structure Frame.Wait (h : Heap) (lines : List TraceFrame) (frames : List Frame) : Prop where
  lines : frames.map (traceFrame h) <:+ lines
  there : ∀ g ∈ frames, g.unit < h.units.size

namespace Frame.Wait

variable {h h' : Heap} {lines : List TraceFrame} {frames : List Frame} {g : Frame}

lemma nil : Wait h lines [] := ⟨List.nil_suffix, fun _ hg => absurd hg List.not_mem_nil⟩

lemma tail (hw : Wait h lines (g :: frames)) : Wait h lines frames :=
  ⟨(List.suffix_cons _ _).trans hw.lines, fun g' hg' => hw.there g' (List.mem_cons_of_mem _ hg')⟩

/-- What the innermost frame executes stands above them. -/
lemma above (hw : Wait h lines frames) {x : Executed} (hx : x.depth = frames.length + 1) :
    Executed.above lines x = .code x.unit x.position :: frames.map (traceFrame h) := by
  have hlines := List.suffix_iff_eq_drop.mp hw.lines
  rw [List.length_map] at hlines
  rw [Executed.above, hx, Nat.add_sub_add_right, ← hlines]

lemma becomes (hw : Wait h lines frames) (hb : h.Becomes h') : Wait h' lines frames := by
  refine ⟨?_, fun g hg => (hb.unitAt (hw.there g hg)).1⟩
  have hsame : frames.map (traceFrame h') = frames.map (traceFrame h) :=
    List.map_congr_left fun g hg => traceFrame_congr rfl rfl (hb.unitAt (hw.there g hg)).2
  rw [hsame]
  exact hw.lines

end Frame.Wait

namespace Machine

/-- The instruction that the next step executes. -/
def executed? (m : Machine) (run : Nat) : Option Executed :=
  match m.frames with
  | [] => none
  | f :: rest => ((m.heap.unitAt f.unit).instr? f.position).map fun _ =>
      ⟨run, rest.length + 1, (m.heap.unitAt f.unit).name, f.position⟩

lemma run_of_executed? {m : Machine} {run : Nat} (x : Executed) (hx : x ∈ m.executed? run) :
    x.run = run := by
  obtain ⟨h, a, vm, _ | ⟨f, rest⟩⟩ := m
  · cases hx
  · obtain ⟨i, -, rfl⟩ := Option.map_eq_some_iff.mp hx
    rfl

/-- The failure of the builtin that the next step calls. -/
def failure? (m : Machine) : Option BuiltinFailure :=
  match m.frames with
  | [] => none
  | f :: _ => ((m.heap.unitAt f.unit).instr? f.position).bind (f.failure? m.heap)

variable {h : Heap} {a : Array Attachment} {vm : Vm} {f : Frame} {rest : List Frame}
  {lines : List TraceFrame}

/-- Nothing that runs has to do with units that are not there. -/
lemma lt_size_of_instr? {i : Instr} (hi : (h.unitAt f.unit).instr? f.position = some i) :
    f.unit < h.units.size := by
  by_contra hlt
  rw [Heap.unitAt, getD_of_size_le (Nat.not_lt.mp hlt)] at hi
  cases hi

lemma units_step (m : Machine) (hw : World.Sound ⟨m.heap, m.attachments⟩) :
    m.step.machine.heap.units = m.heap.units := by
  rcases step_cases m hw with ⟨-, hquiet⟩ | ⟨f, q, fam, t, hvisits⟩
  · exact hquiet.heap.units
  · exact hvisits.quiet.heap.units

/-- How a step ends in view of the lines: the frames that wait are where these say, or an error has
come through all of them. -/
inductive Keeps (h : Heap) (lines : List TraceFrame) (x : Option BuiltinFailure) :
    Progress → Prop where
  | running {m : Machine} (wait : Frame.Wait h lines m.frames.tail) : Keeps h lines x (.running m)
  | returned (m : Machine) (v : Value) : Keeps h lines x (.returned m v)
  | failed (m : Machine) {e : Error} (raised : e.Raised x) :
      Keeps h lines x (.failed m (e.through lines))

lemma deliver_keeps (x : Option BuiltinFailure) {h' : Heap} (v : Value)
    (hwait : Frame.Wait h lines rest) : Keeps h lines x (deliver ⟨h', a, vm, rest⟩ v) := by
  cases rest with
  | nil => exact .returned ..
  | cons g rest => exact .running hwait.tail

/-- A step that fails executes an instruction, which stands above all frames that wait. -/
lemma lines_of_failed {m m' : Machine} {e : Error} (run : Nat) (hstep : m.step = .failed m' e)
    (hwait : Frame.Wait m.heap lines m.frames.tail) :
    (m.executed? run).elim lines (Executed.above lines) =
      m.frames.map (Frame.traceFrame m.heap) := by
  obtain ⟨h, a, vm, _ | ⟨f, rest⟩⟩ := m
  · cases hstep
  rcases hi : (h.unitAt f.unit).instr? f.position with _ | i
  · rw [step_of_none hi] at hstep
    cases rest <;> cases hstep
  · simp only [executed?, hi, Option.map_some, Option.elim_some]
    exact hwait.above rfl

/-- **Step after step** the chain of calls is what the instructions that have been executed tell. -/
theorem step_keeps (m : Machine) (run : Nat) (hw : World.Sound ⟨m.heap, m.attachments⟩)
    (hwait : Frame.Wait m.heap lines m.frames.tail) :
    Keeps m.heap ((m.executed? run).elim lines (Executed.above lines)) m.failure? m.step := by
  obtain ⟨h, a, vm, _ | ⟨f, rest⟩⟩ := m
  · exact .returned ..
  change Frame.Wait h lines rest at hwait
  rcases hi : (h.unitAt f.unit).instr? f.position with _ | i
  · -- the frame has run past its code, and returns
    rw [step_of_none hi]
    simp only [executed?, hi, Option.map_none, Option.elim_none]
    exact deliver_keeps _ _ hwait
  have hlines := hwait.above (x := ⟨run, rest.length + 1, (h.unitAt f.unit).name, f.position⟩) rfl
  have hhere : Frame.Wait h ((f :: rest).map (Frame.traceFrame h)) rest :=
    ⟨List.suffix_cons _ _, hwait.there⟩
  have hstep := step_onto h a vm [] rest f
  have hproceeds := step_proceeds vm hw hi
  have hunits := units_step ⟨h, a, vm, [f]⟩ hw
  rw [List.singleton_append] at hstep
  rw [hstep]
  simp only [executed?, failure?, hi, Option.map_some, Option.elim_some, Option.bind_some, hlines]
  change Keeps h ((f :: rest).map (Frame.traceFrame h)) _ _
  generalize step ⟨h, a, vm, [f]⟩ = out at hproceeds hunits ⊢
  cases hproceeds with
  | @stays m f' frames =>
    obtain ⟨h', a', vm', frames'⟩ := m
    cases frames
    exact .running hhere
  | @calls m g f' frames unit position =>
    obtain ⟨h', a', vm', frames'⟩ := m
    cases frames
    refine .running ⟨?_, fun g' hg' => ?_⟩
    · have hline : f'.traceFrame h = f.traceFrame h := Frame.traceFrame_congr unit position rfl
      show (f' :: rest).map (Frame.traceFrame h) <:+ _
      rw [List.map_cons, List.map_cons, hline]
    · rcases List.mem_cons.mp hg' with rfl | hrest
      · rw [unit]
        exact lt_size_of_instr? hi
      · exact hwait.there g' hrest
  | leaves m v => exact deliver_keeps _ v hhere
  | @fails m e raised =>
    obtain ⟨h', a', vm', frames'⟩ := m
    have hsame : h'.units = h.units := hunits
    have hrest : rest.map (Frame.traceFrame h') = rest.map (Frame.traceFrame h) := by
      refine List.map_congr_left fun g _ => Frame.traceFrame_congr rfl rfl ?_
      rw [Heap.unitAt, hsame, Heap.unitAt]
    have hall : (e.through [f.traceFrame h]).through (rest.map (Frame.traceFrame h')) =
        e.through ((f :: rest).map (Frame.traceFrame h)) := by
      rw [← Error.through_append, hrest]
      rfl
    show Keeps h _ _ (fail ⟨h', a', vm', rest⟩ _)
    rw [fail, hall]
    exact .failed _ raised

end Machine

/-! ### Errors of inner frames -/

/-- The error that an execution has ended with. -/
def Reply.error? : Reply → Option Error
  | .ended (.error e) => some e
  | _ => none

lemma Progress.failed_of_error? {out : Progress} {e : Error} (he : out.reply.error? = some e) :
    ∃ m, out = .failed m e := by
  cases out with
  | failed m e' =>
    cases he
    exact ⟨m, rfl⟩
  | _ => cases he

/-- **What inner frames end with** comes through those around them. -/
theorem Machine.error_onto {h : Heap} {a : Array Attachment} {vm : Vm} {inner outer : List Frame}
    {e : Error} (hw : World.Sound ⟨h, a⟩) (hinner : inner ≠ [])
    (he : (step ⟨h, a, vm, inner ++ outer⟩).reply.error? = some e) :
    ∃ e', (step ⟨h, a, vm, inner⟩).reply.error? = some e' ∧
      e = e'.through (outer.map (Frame.traceFrame h)) := by
  obtain ⟨f, inner, rfl⟩ := List.exists_cons_of_ne_nil hinner
  have hunits := units_step ⟨h, a, vm, f :: inner⟩ hw
  rw [step_onto] at he
  generalize step ⟨h, a, vm, f :: inner⟩ = out at he hunits ⊢
  cases out with
  | running m => cases he
  | returned m v =>
    obtain ⟨h', a', vm', frames'⟩ := m
    cases outer <;> cases he
  | failed m e' =>
    obtain ⟨h', a', vm', frames'⟩ := m
    have hsame : h'.units = h.units := hunits
    have hlines : outer.map (Frame.traceFrame h') = outer.map (Frame.traceFrame h) := by
      refine List.map_congr_left fun g _ => Frame.traceFrame_congr rfl rfl ?_
      rw [Heap.unitAt, hsame, Heap.unitAt]
    refine ⟨e', rfl, ?_⟩
    rw [← hlines]
    cases he
    rfl

/-! ### Processes -/

namespace Process

variable {p : Process} {a : Action} {log : List Executed}

/-- The instruction that an action executes. -/
def executed? (p : Process) : Action → Option Executed
  | .step => p.machine?.bind (·.executed? p.runs.length)
  | _ => none

/-- The instructions that are executed along some actions, by all executions. -/
def executed (p : Process) : List Action → List Executed
  | [] => []
  | a :: as => (p.executed? a).toList ++ (p.perform a).executed as

/-- The failure of the builtin that an action calls. -/
def failure? (p : Process) : Action → Option BuiltinFailure
  | .invoke _ invocation => invocation.failure? p.world.heap
  | .step => p.machine?.bind Machine.failure?
  | _ => none

/-- The chain of calls that an action is made in, by what has been executed up to it. An execution
that has yet to begin has none. -/
def callChain (p : Process) (log : List Executed) : Action → List TraceFrame
  | .step => Executed.chain p.runs.length log
  | _ => []

lemma executed_append_singleton (p : Process) (as : List Action) (a : Action) :
    p.executed (as ++ [a]) = p.executed as ++ ((p.after as).executed? a).toList := by
  induction as generalizing p with
  | nil => exact List.append_nil _
  | cons b as ih =>
    rw [List.cons_append, executed, executed, ih, List.append_assoc]
    rfl

/-- In every execution the frames that wait stand where its chain of calls says. -/
def Chained (p : Process) (log : List Executed) : Prop :=
  ∀ r rest, (r :: rest) <:+ p.runs →
    Frame.Wait p.world.heap (Executed.chain (rest.length + 1) log) r.frames.tail

/-- Nothing goes on, or the execution begun last does. -/
lemma machine?_cases (p : Process) : p.machine? = none ∨ ∃ r rest x, p.runs = r :: rest ∧
    p.vms[r.vm]? = some x ∧
    p.machine? = some ⟨p.world.heap, p.world.attachments, x, r.frames⟩ := by
  unfold machine?
  rcases p.runs with _ | ⟨r, rest⟩
  · exact .inl rfl
  · rcases hx : p.vms[r.vm]? with _ | x
    · exact .inl (by simp only [hx, Option.map_none])
    · exact .inr ⟨r, rest, x, rfl, hx, by simp only [hx, Option.map_some]⟩

namespace Chained

/-- No execution is begun, and none goes on. -/
lemma same {p' : Process} (hc : p.Chained log) (hb : p.world.heap.Becomes p'.world.heap)
    (hruns : p'.runs = p.runs) : p'.Chained log := by
  intro r rest hsuffix
  rw [hruns] at hsuffix
  exact (hc r rest hsuffix).becomes hb

/-- One execution goes on above the others, or comes to an end. -/
lemma settle {runs : List Run} {v : Nat} {out : Progress} {log' : List Executed}
    (hb : p.world.heap.Becomes out.machine.heap)
    (hbelow : ∀ r rest, (r :: rest) <:+ runs →
      Frame.Wait p.world.heap (Executed.chain (rest.length + 1) log') r.frames.tail)
    (htop : ∀ m, out = .running m →
      Frame.Wait p.world.heap (Executed.chain (runs.length + 1) log') m.frames.tail) :
    (p.settle v runs out).Chained log' := by
  cases out with
  | running m =>
    intro r rest hsuffix
    rcases List.suffix_cons_iff.mp hsuffix with heq | hrest
    · cases heq
      exact (htop m rfl).becomes hb
    · exact (hbelow r rest hrest).becomes hb
  | returned m v => exact fun r rest hsuffix => (hbelow r rest hsuffix).becomes hb
  | failed m e => exact fun r rest hsuffix => (hbelow r rest hsuffix).becomes hb

lemma step (hp : p.world.Sound) (hc : p.Chained log) :
    (p.perform .step).Chained (log ++ (p.executed? .step).toList) := by
  have hb := perform_becomes p .step
  rcases p.machine?_cases with hnone | ⟨r, rest, x, hruns, hx, hm⟩
  · have hsame : p.perform .step = p := by
      simp only [Process.perform, hnone]
      cases p.runs <;> rfl
    rw [hsame, executed?, hnone, Option.bind_none, Option.toList_none, List.append_nil]
    exact hc
  rw [perform_step hruns hx] at hb ⊢
  rw [executed?, hm, hruns, Option.bind_some, List.length_cons]
  refine .settle hb (fun r' rest' hsuffix => ?_) fun m hrunning => ?_
  · -- what is executed belongs to the execution above
    have hlt : rest'.length < rest.length := hsuffix.length_le
    rw [Executed.chain_append_other log fun x hx => by
      rw [Machine.run_of_executed? x hx]
      omega]
    exact hc r' rest' (by rw [hruns]; exact hsuffix.trans (List.suffix_cons r rest))
  · have hkeeps := Machine.step_keeps ⟨p.world.heap, p.world.attachments, x, r.frames⟩
      (rest.length + 1) hp (hc r rest (by rw [hruns]))
    rw [hrunning] at hkeeps
    rw [Executed.chain_append_self log Machine.run_of_executed?]
    cases hkeeps with
    | running wait => exact wait

lemma perform (hp : p.world.Sound) (hc : p.Chained log) (a : Action) :
    (p.perform a).Chained (log ++ (p.executed? a).toList) := by
  have hb := perform_becomes p a
  by_cases hstep : a = .step
  · subst hstep
    exact hc.step hp
  have hnone : p.executed? a = none := by
    cases a with
    | step => exact absurd rfl hstep
    | _ => rfl
  rw [hnone, Option.toList_none, List.append_nil]
  cases a with
  | step => exact absurd rfl hstep
  | invoke v invocation =>
    dsimp only [Process.perform] at hb ⊢
    split at hb
    · next x hx =>
      refine .settle hb hc fun m hrunning => ?_
      have hopens := Machine.start_opens p.world x invocation
      rw [hrunning] at hopens
      cases hopens with
      | enters frames =>
        rw [frames]
        exact .nil
    · exact hc
  | _ =>
    refine hc.same hb ?_
    dsimp only [Process.perform]
    repeat' split
    all_goals rfl

lemma after (hp : p.world.Sound) (hc : p.Chained log) (as : List Action) :
    (p.after as).Chained (log ++ p.executed as) := by
  induction as generalizing p log with
  | nil =>
    rw [executed, List.append_nil]
    exact hc
  | cons a as ih =>
    rw [executed, ← List.append_assoc]
    exact ih (perform_sound hp a) (hc.perform hp a)

lemma empty : ({} : Process).Chained [] := by
  intro r rest hsuffix
  have hlength := hsuffix.length_le
  simp at hlength

end Chained

/-- The chain of calls of the execution that goes on, with what its step executes. -/
lemma Chained.callChain_step {m : Machine} (hc : p.Chained log) (hm : p.machine? = some m) :
    ∃ run lines, Frame.Wait m.heap lines m.frames.tail ∧
      p.callChain (log ++ (p.executed? .step).toList) .step =
        (m.executed? run).elim lines (Executed.above lines) := by
  rcases p.machine?_cases with hnone | ⟨r, rest, x, hruns, hx, hm'⟩
  · cases hnone.symm.trans hm
  · obtain rfl := Option.some.inj (hm'.symm.trans hm)
    refine ⟨rest.length + 1, _, hc r rest (by rw [hruns]), ?_⟩
    rw [callChain, executed?, hm, hruns, Option.bind_some, List.length_cons,
      Executed.chain_append_self log Machine.run_of_executed?]

/-- An error that ends an execution has come through its chain of calls. -/
lemma reply_chained {e : Error} (hp : p.world.Sound) (hc : p.Chained log)
    (he : (p.reply a).error? = some e) : ∃ e₀ : Error, e₀.Raised (p.failure? a) ∧
      e = e₀.through (p.callChain (log ++ (p.executed? a).toList) a) := by
  cases a with
  | step =>
    unfold reply at he
    rcases hm : p.machine? with _ | m
    · rw [hm] at he
      cases he
    obtain ⟨hheap, hatt⟩ := machine?_eq_some hm
    obtain ⟨run, lines, hwait, hchain⟩ := hc.callChain_step hm
    have hkeeps := m.step_keeps run (by rw [hheap, hatt]; exact hp) hwait
    simp only [hm] at he
    obtain ⟨m', hfailed⟩ := Progress.failed_of_error? he
    rw [hchain, failure?, hm, Option.bind_some]
    rw [hfailed] at hkeeps
    cases hkeeps with
    | failed m' raised => exact ⟨_, raised, rfl⟩
  | invoke v invocation =>
    unfold reply at he
    dsimp only at he
    split at he
    · next x hx =>
      have hopens := Machine.start_opens p.world x invocation
      obtain ⟨m, hfailed⟩ := Progress.failed_of_error? he
      rw [hfailed] at hopens
      cases hopens with
      | fails m raised => exact ⟨e, raised, (Error.through_nil e).symm⟩
    · cases he
  | request r =>
    cases r with
    | newFunction unit globals defaults =>
      dsimp only [reply, Heap.reply] at he
      split at he <;> cases he
    | _ => cases he
  | _ =>
    dsimp only [reply] at he
    repeat' split at he
    all_goals cases he

/-- **Stack traces are call chains.** A fault that ends an execution has come through the active
frames, the innermost first, one line for each. In front of them stands only what a builtin that
failed had to add. -/
theorem stack_traces_are_call_chains (as : List Action) (a : Action) (e : Error) :
    let p := ({} : Process).after as
    let chain := p.callChain (({} : Process).executed (as ++ [a])) a
    (p.reply a).error? = some e →
    (p.failure? a = none → ∀ cause trace, e = .fault cause trace → trace = chain) ∧
    (∀ x, p.failure? a = some x → e = x.error.through (.native x.builtin :: chain)) ∧
    (a = .step → ∀ m, p.machine? = some m →
      chain = m.frames.map (Frame.traceFrame m.heap) ∧
      ∀ inner outer, m.frames = inner ++ outer → inner ≠ [] →
        ∃ e', (Machine.step { m with frames := inner }).reply.error? = some e' ∧
          e = e'.through (outer.map (Frame.traceFrame m.heap)) ∧
          (e.faultKind? = none → e = e')) := by
  intro p chain he
  have hp : p.world.Sound := after_sound World.sound_empty as
  have hlog := executed_append_singleton {} as a
  have hchained : p.Chained (({} : Process).executed as) :=
    Chained.after World.sound_empty Chained.empty as
  obtain ⟨e₀, hraised, heq⟩ := reply_chained hp hchained he
  rw [← hlog] at heq
  change e = e₀.through chain at heq
  refine ⟨fun hnone cause trace hfault => ?_, fun x hx => ?_, ?_⟩
  · rw [hnone] at hraised
    rw [heq] at hfault
    cases e₀ with
    | fault cause' trace' =>
      obtain ⟨rfl, rfl⟩ := Error.fault.inj hfault
      rw [hraised cause' trace' rfl, List.nil_append]
    | _ => cases hfault
  · rw [hx] at hraised
    obtain rfl : e₀ = x.error.through [.native x.builtin] := hraised
    rw [heq, ← Error.through_append]
    rfl
  · rintro rfl m hm
    have hstep : m.step.reply.error? = some e := by
      rw [reply, hm] at he
      exact he
    obtain ⟨hheap, hatt⟩ := machine?_eq_some hm
    refine ⟨?_, fun inner outer hframes hinner => ?_⟩
    · obtain ⟨run, lines, hwait, hchain⟩ := hchained.callChain_step hm
      obtain ⟨m', hfailed⟩ := Progress.failed_of_error? hstep
      rw [← Machine.lines_of_failed run hfailed hwait, ← hchain, ← hlog]
    · have hsound : World.Sound ⟨m.heap, m.attachments⟩ := by
        rw [hheap, hatt]
        exact hp
      obtain ⟨h, s, vm, frames⟩ := m
      obtain rfl : frames = inner ++ outer := hframes
      obtain ⟨e', he', hthrough⟩ := Machine.error_onto hsound hinner hstep
      refine ⟨e', he', hthrough, fun hkind => ?_⟩
      rw [hthrough] at hkind ⊢
      exact Error.through_of_not_fault hkind

/-- A unit calls a function that calls a builtin, twice with a number and then with a text. All
sites are specialized by then. -/
def callsNested : List Action :=
  [.newVm { warmupThreshold := 1, specializeThreshold := 2 },
   .request (.newModule "main"),
   .addUnit
    { name := "size"
      instrs := #[⟨.loadGlobal, 0⟩, ⟨.loadFast, 0⟩, ⟨.call, 1⟩, ⟨.ret, 0⟩]
      names := #["abs"]
      argcount := 1
      nlocals := 1 },
   .addUnit
    { name := "main"
      instrs := #[⟨.loadGlobal, 0⟩, ⟨.loadGlobal, 1⟩, ⟨.call, 1⟩, ⟨.ret, 0⟩]
      names := #["f", "x"] },
   .request (.newFunction 0 ⟨1, "main"⟩ []),
   .request (.assign 1 "f" (.function ⟨0, "size"⟩)),
   .request (.assign 1 "x" (.int 1))] ++
  runFor 8 0 1 ⟨1, "main"⟩ ++ runFor 8 0 1 ⟨1, "main"⟩ ++
  .request (.assign 1 "x" (.str "a")) :: runFor 5 0 1 ⟨1, "main"⟩

theorem stack_traces_are_call_chains_nested :
    let p := ({} : Process).after callsNested
    let log := ({} : Process).executed (callsNested ++ [.step])
    p.callChain log .step = [.code "size" 2, .code "main" 2] ∧
      p.failure? .step = some ⟨"abs", .ofFault (.noAbs "str")⟩ ∧
      ∃ e, (p.reply .step).error? = some e ∧
        e = .fault (.noAbs "str") [.native "abs", .code "size" 2, .code "main" 2] := by
  intro p log
  have hchain : p.callChain log .step = [.code "size" 2, .code "main" 2] := by decide +kernel
  have hbuiltin : p.failure? .step = some ⟨"abs", .ofFault (.noAbs "str")⟩ := by decide +kernel
  have hends : (p.reply .step).error?.isSome = true := by decide +kernel
  obtain ⟨e, he⟩ := Option.isSome_iff_exists.mp hends
  obtain ⟨-, hfails, -⟩ := stack_traces_are_call_chains callsNested .step e he
  refine ⟨hchain, hbuiltin, e, he, ?_⟩
  rw [hfails _ hbuiltin]
  change (Error.ofFault (.noAbs "str")).through (.native "abs" :: p.callChain log .step) = _
  rw [hchain]
  rfl

end Process

end AdaptiveVM
