import AdaptiveVM.Proofs.CallChains

/-!
How deep interpreters are.

An interpreter counts a frame when it enters it and takes it off when it leaves it; an error takes
off all the frames that it comes through. So the count is at any moment the number of frames that
are active, whatever ends an execution, and an execution leaves the count as it has found it. Where
there are as many frames as there may be, one more is refused before anything is done for it.
-/

namespace AdaptiveVM

/-! ### What a step does to the innermost frame -/

/-- Where an instruction goes on in its unit: behind itself, or where it jumps to. -/
def CodeUnit.Follows (u : CodeUnit) (p p' : Nat) : Prop :=
  ∃ i, u.instr? p = some i ∧ (p' = p + 1 ∨ i.op.isJump = true ∧ p' = i.arg.toNat)

/-- Where a call leads that no frame waits for, and how deep. -/
inductive Progress.Enters (vm : Vm) : Progress → Prop where
  | enters {m : Machine} {g : Frame} (frames : m.frames = [g]) (position : g.position = 0)
      (room : vm.depth < vm.config.maxFrameDepth) (depth : m.vm.depth = vm.depth + 1) :
      Enters vm (.running m)
  | returns {m : Machine} (v : Value) (frames : m.frames = []) (depth : m.vm.depth = vm.depth) :
      Enters vm (.returned m v)
  | fails {m : Machine} (e : Error) (frames : m.frames = []) (depth : m.vm.depth = vm.depth) :
      Enters vm (.failed m e)

/-- What becomes of a frame of a unit in one step, if it has no other frame around it, and how deep
the interpreter is then. -/
inductive Progress.Moves (u : CodeUnit) (f : Frame) (vm : Vm) : Progress → Prop where
  | goes {m : Machine} {f' : Frame} (frames : m.frames = [f']) (unit : f'.unit = f.unit)
      (position : u.Follows f.position f'.position) (depth : m.vm.depth = vm.depth) :
      Moves u f vm (.running m)
  | calls {m : Machine} {g f' : Frame} (frames : m.frames = [g, f']) (unit : f'.unit = f.unit)
      (position : f'.position = f.position) (here : f.position < u.size) (first : g.position = 0)
      (room : vm.depth < vm.config.maxFrameDepth) (depth : m.vm.depth = vm.depth + 1) :
      Moves u f vm (.running m)
  | leaves {m : Machine} (v : Value) (frames : m.frames = []) (depth : m.vm.depth = vm.depth - 1) :
      Moves u f vm (.returned m v)
  | fails {m : Machine} (e : Error) (frames : m.frames = []) (depth : m.vm.depth = vm.depth - 1) :
      Moves u f vm (.failed m e)

namespace Machine

variable {h : Heap} {a : Array Attachment} {vm : Vm} {f f' : Frame} {u : CodeUnit} {i : Instr}

lemma enter_enters (h : Heap) (a : Array Attachment) (vm : Vm) (u : Nat) (globals : Ref .mod)
    (locals : Array (Option Value)) : (enter ⟨h, a, vm, []⟩ u globals locals).Enters vm := by
  have hdepth := depth_warmUp h a vm u
  unfold enter
  dsimp only
  split
  · exact .fails _ rfl rfl
  · next hroom =>
    split
    · next hw =>
      rw [hw] at hdepth
      exact .enters rfl rfl (Nat.not_le.mp hroom) (congrArg (· + 1) hdepth)
    · next hw =>
      rw [hw] at hdepth
      exact .fails _ rfl hdepth

lemma call_enters (h : Heap) (a : Array Attachment) (vm : Vm) (callee : Value)
    (args : List Value) : (call ⟨h, a, vm, []⟩ callee args).Enters vm := by
  cases callee with
  | function r =>
    dsimp only [call]
    split
    · exact enter_enters ..
    · exact .fails _ rfl rfl
  | builtin b =>
    simp only [call, callBuiltin]
    rcases (h.invoke b args).1 with e | v
    · exact .fails _ rfl rfl
    · exact .returns v rfl rfl
  | cls c =>
    dsimp only [call]
    split
    · exact .returns _ rfl rfl
    · exact .fails _ rfl rfl
  | _ => exact .fails _ rfl rfl

lemma start_enters (w : World) (vm : Vm) (i : Invocation) : (i.start w vm).Enters vm := by
  cases i with
  | run unit globals =>
    dsimp only [Invocation.start, start]
    split
    · exact .fails _ rfl rfl
    · exact enter_enters ..
  | call callee args => exact call_enters ..

lemma jump_moves (hi : u.instr? f.position = some i) (hjump : i.op.isJump = true)
    (hu : f'.unit = f.unit) :
    (jump h a vm f' [] i.arg.toNat).Moves u f vm := by
  have hdepth := depth_warmUp h a vm f'.unit
  have hfollows : u.Follows f.position i.arg.toNat := ⟨i, hi, .inr ⟨hjump, rfl⟩⟩
  unfold jump
  split
  · split
    · next hw =>
      rw [hw] at hdepth
      exact .goes rfl hu hfollows hdepth
    · next hw =>
      rw [hw] at hdepth
      exact .fails _ rfl (congrArg (· - 1) hdepth)
  · exact .goes rfl hu hfollows rfl

lemma call_moves (callee : Value) (args : List Value) (hi : u.instr? f.position = some i)
    (hu : f'.unit = f.unit) (hp : f'.position = f.position) :
    (call ⟨h, a, vm, [f']⟩ callee args).Moves u f vm := by
  have henters := call_enters h a vm callee args
  have honto := call_onto h a vm [] [f'] callee args
  rw [List.nil_append] at honto
  rw [honto]
  generalize call ⟨h, a, vm, []⟩ callee args = out at henters ⊢
  cases henters with
  | @enters m g frames position room depth =>
    obtain ⟨h', a', vm', frames'⟩ := m
    cases frames
    exact .calls rfl hu hp (Array.getElem?_eq_some_iff.mp hi).1 position room depth
  | @returns m v frames depth =>
    exact .goes rfl hu ⟨i, hi, .inl (congrArg (· + 1) hp)⟩ depth
  | @fails m e frames depth => exact .fails _ rfl (congrArg (· - 1) depth)

end Machine

/-- Only jumps jump, and they jump to their operand. -/
lemma Frame.effect_jump {f f' : Frame} {h : Heap} {b : Ref .mod} {u : CodeUnit} {i : Instr}
    {target : Nat} (he : f.effect h b u i.op i.arg = .ok (.jump f' target)) :
    i.op.isJump = true ∧ target = i.arg.toNat := by
  obtain ⟨op, arg⟩ := i
  cases op <;> simp only [effect] at he <;> repeat' split at he
  all_goals cases he
  all_goals exact ⟨rfl, rfl⟩

/-- Of the interpreter only its depth and its limit matter. -/
lemma Progress.Moves.of_vm {u : CodeUnit} {f : Frame} {vm vm' : Vm} {p : Progress}
    (hp : p.Moves u f vm') (hdepth : vm'.depth = vm.depth) (hconfig : vm'.config = vm.config) :
    p.Moves u f vm := by
  cases hp with
  | goes frames unit position depth => exact .goes frames unit position (hdepth ▸ depth)
  | calls frames unit position here first room depth =>
    exact .calls frames unit position here first (hdepth ▸ hconfig ▸ room) (hdepth ▸ depth)
  | leaves v frames depth => exact .leaves v frames (hdepth ▸ depth)
  | fails e frames depth => exact .fails e frames (hdepth ▸ depth)

namespace Machine

variable {h : Heap} {a : Array Attachment} {f : Frame} {u : CodeUnit} {i : Instr}

lemma stepPlain_moves (h : Heap) (a : Array Attachment) (vm : Vm)
    (hi : u.instr? f.position = some i) :
    (stepPlain h a vm f [] u i.op i.arg).Moves u f vm := by
  unfold stepPlain
  split
  · next e he =>
    have hstands (f') (hf' : e.frame? = some f') := Frame.effect_stands he hf'
    have hnext (f') (hf' : e.frame? = some f') : u.Follows f.position (f'.position + 1) :=
      ⟨i, hi, .inl (congrArg (· + 1) (hstands f' hf').2)⟩
    cases e with
    | next f' => exact .goes rfl (hstands f' rfl).1 (hnext f' rfl) rfl
    | jump f' target =>
      obtain ⟨hjump, rfl⟩ := Frame.effect_jump he
      exact jump_moves hi hjump (hstands f' rfl).1
    | assign f' key value => exact .goes rfl (hstands f' rfl).1 (hnext f' rfl) rfl
    | store f' receiver key value => exact .goes rfl (hstands f' rfl).1 (hnext f' rfl) rfl
    | call f' callee args =>
      exact call_moves callee args hi (hstands f' rfl).1 (hstands f' rfl).2
    | leave v => exact .leaves v rfl rfl
  · exact .fails _ rfl rfl

/-- **What a step does to a frame** and to the depth, in every mode and at every stage of a site. -/
theorem step_moves (vm : Vm) (f : Frame) (hw : World.Sound ⟨h, a⟩) :
    (step ⟨h, a, vm, [f]⟩).Moves (h.unitAt f.unit) f vm := by
  rcases hi : (h.unitAt f.unit).instr? f.position with _ | i
  · rw [step_of_none hi]
    exact .leaves _ rfl rfl
  have hdepth := vm.depth_observe (h.unitAt f.unit).name f.position i
  have hconfig := (vm.observe_keeps (h.unitAt f.unit).name f.position i).config
  refine .of_vm ?_ hdepth hconfig
  rcases step_sees vm [] hw hi with ⟨-, hplain⟩ | ⟨q, s, fam, t, -, -, hsees⟩
  · rw [hplain]
    exact stepPlain_moves h a _ hi
  · rw [hsees.eq]
    exact (stepPlain_moves h _ (visit a _ f.unit f.position fam t).2 hi).of_vm rfl rfl

lemma config_step (m : Machine) (hw : World.Sound ⟨m.heap, m.attachments⟩) :
    m.step.machine.vm.config = m.vm.config := by
  rcases step_cases m hw with ⟨-, hquiet⟩ | ⟨f, q, fam, t, hvisits⟩
  · exact hquiet.vm.config
  · exact hvisits.quiet.vm.config

end Machine

/-! ### Executions count their frames -/

/-- The execution goes on. -/
def Progress.isRunning : Progress → Bool
  | .running _ => true
  | _ => false

/-- An execution counts its frames, above `base` others, and has no more of them than the limit
leaves room for. As long as it goes on it has frames, and when it has ended it has none. -/
structure Progress.Counts (base limit : Nat) (p : Progress) : Prop where
  depth : p.machine.vm.depth = base + p.machine.frames.length
  bounded : p.machine.vm.depth ≤ limit
  config : p.machine.vm.config.maxFrameDepth = limit
  running : p.isRunning = !p.machine.frames.isEmpty

namespace Progress

variable {base limit : Nat} {p : Progress} {m : Machine} {vm : Vm}

/-- An execution that has ended leaves the depth as it was. -/
lemma Counts.ended (hp : p.Counts base limit) (hend : p.isRunning = false) :
    p.machine.vm.depth = base := by
  have hnone : p.machine.frames = [] := by simpa [hend] using hp.running
  rw [hp.depth, hnone, List.length_nil, Nat.add_zero]

/-- An execution that has ended where it began. -/
lemma Counts.of_ended (hend : p.isRunning = false) (hframes : p.machine.frames = [])
    (hdepth : p.machine.vm.depth = base) (hbound : base ≤ limit)
    (hconfig : p.machine.vm.config.maxFrameDepth = limit) : p.Counts base limit where
  depth := by rw [hdepth, hframes, List.length_nil, Nat.add_zero]
  bounded := hdepth.trans_le hbound
  config := hconfig
  running := by rw [hend, hframes]; rfl

lemma Counts.of_running (hframes : m.frames ≠ [])
    (hdepth : m.vm.depth = base + m.frames.length) (hbound : m.vm.depth ≤ limit)
    (hconfig : m.vm.config.maxFrameDepth = limit) : (Progress.running m).Counts base limit where
  depth := hdepth
  bounded := hbound
  config := hconfig
  running := by simpa [isRunning, machine] using hframes

lemma Enters.counts (hp : p.Enters vm) (hconfig : p.machine.vm.config = vm.config)
    (hbound : vm.depth ≤ vm.config.maxFrameDepth) :
    p.Counts vm.depth vm.config.maxFrameDepth := by
  have hlimit := congrArg Config.maxFrameDepth hconfig
  cases hp with
  | enters frames position room depth =>
    refine .of_running (by rw [frames]; exact List.cons_ne_nil _ _) ?_ (depth.trans_le room) hlimit
    rw [depth, frames, List.length_singleton]
  | returns v frames depth => exact .of_ended rfl frames depth hbound hlimit
  | fails e frames depth => exact .of_ended rfl frames depth hbound hlimit

/-- One step of the innermost frame, with others around it. -/
lemma Moves.counts {u : CodeUnit} {f : Frame} {outer : List Frame} (hp : p.Moves u f vm)
    (hconfig : p.machine.vm.config = vm.config)
    (hdepth : vm.depth = base + (outer.length + 1)) (hbound : vm.depth ≤ vm.config.maxFrameDepth) :
    (p.onto outer).Counts base vm.config.maxFrameDepth := by
  have hlimit := congrArg Config.maxFrameDepth hconfig
  cases hp with
  | @goes m f' frames unit position depth =>
    obtain ⟨h, a, vm', frames'⟩ := m
    cases frames
    refine .of_running (List.cons_ne_nil _ _) (depth.trans hdepth) (depth.trans_le hbound) hlimit
  | @calls m g f' frames unit position here first room depth =>
    obtain ⟨h, a, vm', frames'⟩ := m
    cases frames
    refine .of_running (List.cons_ne_nil _ _) ?_ (depth.trans_le room) hlimit
    show vm'.depth = base + (outer.length + 1 + 1)
    have hdeeper : vm'.depth = vm.depth + 1 := depth
    omega
  | @leaves m v frames depth =>
    obtain ⟨h, a, vm', frames'⟩ := m
    have hshallower : vm'.depth = vm.depth - 1 := depth
    cases outer with
    | nil =>
      rw [List.length_nil] at hdepth
      exact .of_ended rfl rfl (by show vm'.depth = _; omega) (by omega) hlimit
    | cons g outer =>
      refine .of_running (List.cons_ne_nil _ _) ?_ (by show vm'.depth ≤ _; omega) hlimit
      show vm'.depth = base + (outer.length + 1)
      rw [List.length_cons] at hdepth
      omega
  | @fails m e frames depth =>
    obtain ⟨h, a, vm', frames'⟩ := m
    have hshallower : vm'.depth = vm.depth - 1 := depth
    refine .of_ended rfl rfl ?_ (by omega) hlimit
    show vm'.depth - outer.length = base
    omega

lemma Counts.step (hw : World.Sound ⟨m.heap, m.attachments⟩)
    (hm : (Progress.running m).Counts base limit) : m.step.Counts base limit := by
  obtain ⟨h, a, vm, _ | ⟨f, outer⟩⟩ := m
  · cases hm.running
  obtain rfl : vm.config.maxFrameDepth = limit := hm.config
  have hstep := Machine.step_onto h a vm [] outer f
  rw [List.singleton_append] at hstep
  rw [hstep]
  exact (Machine.step_moves vm f hw).counts (Machine.config_step ⟨h, a, vm, [f]⟩ hw) hm.depth
    hm.bounded

/-- **Executions count their frames**, for any number of steps. -/
theorem Counts.advance (n : Nat) (hw : World.Sound ⟨p.machine.heap, p.machine.attachments⟩)
    (hp : p.Counts base limit) : (p.advance n).Counts base limit := by
  induction n generalizing p with
  | zero => exact hp
  | succ n ih =>
    cases p with
    | running m => exact ih hw.step (hp.step hw)
    | returned m v => exact hp
    | failed m e => exact hp

/-- Frames around an execution do not matter until it has ended. -/
lemma Counts.advance_onto (outer : List Frame) (n : Nat)
    (hw : World.Sound ⟨p.machine.heap, p.machine.attachments⟩) (hp : p.Counts base limit)
    (hrunning : ∀ k < n, (p.advance k).isRunning = true) :
    (p.onto outer).advance n = (p.advance n).onto outer := by
  induction n generalizing p with
  | zero => rfl
  | succ n ih =>
    cases p with
    | running m =>
      have hnext : (m.step.onto outer).advance n = (m.step.advance n).onto outer :=
        ih hw.step (hp.step hw) fun k hk => hrunning (k + 1) (by omega)
      obtain ⟨h, a, vm, _ | ⟨f, frames⟩⟩ := m
      · cases hp.running
      · rw [← Machine.step_onto] at hnext
        exact hnext
    | returned m v => cases hrunning 0 (Nat.succ_pos n)
    | failed m e => cases hrunning 0 (Nat.succ_pos n)

end Progress

/-! ### Frames that are refused -/

/-- The unit that a call is to enter in a frame of its own: the callee is a function, and the
arguments fill its parameters. -/
def Heap.enters? (h : Heap) (callee : Value) (args : List Value) : Option Nat :=
  match callee with
  | .function f =>
    let fn := h.functionAt f
    let u := h.unitAt fn.unit
    match Binding.bind f.name u.argcount.toNat u.nlocals.toNat fn.defaults args with
    | .ok _ => some fn.unit
    | .error _ => none
  | _ => none

def Invocation.enters? (h : Heap) : Invocation → Option Nat
  | .run unit _ => if (h.unitAt unit).argcount = 0 then some unit else none
  | .call callee args => h.enters? callee args

/-- The unit that an instruction is to enter in a frame of its own. -/
def Frame.enters? (f : Frame) (h : Heap) (i : Instr) : Option Nat :=
  match i.op with
  | .call =>
    match f.popMany? i.arg.toNat with
    | some (args, callee :: _) => h.enters? callee args
    | _ => none
  | _ => none

namespace Machine

/-- The unit that the next step is to enter in a frame of its own. -/
def enters? (m : Machine) : Option Nat :=
  match m.frames with
  | [] => none
  | f :: _ => ((m.heap.unitAt f.unit).instr? f.position).bind (f.enters? m.heap)

/-- The next step is refused a frame. The instruction that calls has been recorded, and if it is
executed as a site one event has happened there. For the frame nothing has been done. -/
inductive Refuses (m : Machine) : Prop where
  | mk (f : Frame) (rest : List Frame) (i : Instr) (learnt : Array Attachment × Vm)
      (frames : m.frames = f :: rest) (instr : (m.heap.unitAt f.unit).instr? f.position = some i)
      (caller : let seen := m.vm.observe (m.heap.unitAt f.unit).name f.position i
        learnt = (m.attachments, seen) ∨
          ∃ t, learnt = visit m.attachments seen f.unit f.position .call t)
      (step : m.step = .failed
        ⟨m.heap, learnt.1, { learnt.2 with depth := m.vm.depth - m.frames.length }, []⟩
        (.limit (.depth (m.vm.depth + 1) m.vm.depth)))

variable {h : Heap} {a : Array Attachment} {vm : Vm} {frames : List Frame}

lemma enter_full (hfull : vm.depth = vm.config.maxFrameDepth) (u : Nat) (globals : Ref .mod)
    (locals : Array (Option Value)) :
    enter ⟨h, a, vm, frames⟩ u globals locals =
      .failed ⟨h, a, { vm with depth := vm.depth - frames.length }, []⟩
        (.limit (.depth (vm.depth + 1) vm.depth)) := by
  rw [enter, if_pos hfull.ge, ← hfull]
  rfl

lemma call_full (hfull : vm.depth = vm.config.maxFrameDepth) {callee : Value} {args : List Value}
    {u : Nat} (hu : h.enters? callee args = some u) :
    call ⟨h, a, vm, frames⟩ callee args =
      .failed ⟨h, a, { vm with depth := vm.depth - frames.length }, []⟩
        (.limit (.depth (vm.depth + 1) vm.depth)) := by
  cases callee with
  | function f =>
    dsimp only [Heap.enters?] at hu
    split at hu
    · next locals hbind =>
      dsimp only [call]
      rw [hbind]
      exact enter_full hfull ..
    · cases hu
  | _ => cases hu

lemma start_full {w : World} (hfull : vm.depth = vm.config.maxFrameDepth) {i : Invocation} {u : Nat}
    (hu : i.enters? w.heap = some u) :
    i.start w vm = .failed (idle w vm) (.limit (.depth (vm.depth + 1) vm.depth)) := by
  cases i with
  | run unit globals =>
    dsimp only [Invocation.enters?] at hu
    split at hu
    · next hargs =>
      simp only [Invocation.start, start, hargs, ne_eq, not_true_eq_false, if_false]
      exact enter_full hfull ..
    · cases hu
  | call callee args => exact call_full hfull hu

/-- A static call that is refused a frame. -/
lemma stepPlain_full {f : Frame} {rest : List Frame} {code : CodeUnit} {i : Instr}
    (hfull : vm.depth = vm.config.maxFrameDepth) {u : Nat} (hu : f.enters? h i = some u) :
    stepPlain h a vm f rest code i.op i.arg =
      .failed ⟨h, a, { vm with depth := vm.depth - (rest.length + 1) }, []⟩
        (.limit (.depth (vm.depth + 1) vm.depth)) := by
  obtain ⟨op, arg⟩ := i
  unfold Frame.enters? at hu
  dsimp only at hu
  split at hu
  · split at hu
    · next hpop =>
      rw [stepPlain_call hpop]
      exact call_full hfull hu
    · cases hu
  · cases hu

/-- Only a call enters a frame. -/
lemma family_of_enters {f : Frame} {i : Instr} {q : Quickened} {code : CodeUnit} {b : Ref .mod}
    {s : Sight} {fam : Family} {t : Trial} {u : Nat} (hu : f.enters? h i = some u)
    (hsight : f.sight? b i = some s) (hfaces : Faces h code q f.position s fam t) :
    fam = .call := by
  obtain ⟨op, arg⟩ := i
  unfold Frame.enters? at hu
  dsimp only at hu
  split at hu
  · simp only [Frame.sight?] at hsight
    split at hsight
    · cases hsight
      cases hfaces
      rfl
    · cases hsight
  · cases hu

/-- **A step that is refused a frame** does nothing for it. -/
theorem step_refuses {m : Machine} (hw : World.Sound ⟨m.heap, m.attachments⟩)
    (hfull : m.vm.depth = m.vm.config.maxFrameDepth) {u : Nat} (hu : m.enters? = some u) :
    m.Refuses := by
  obtain ⟨h, a, vm, _ | ⟨f, rest⟩⟩ := m
  · cases hu
  obtain ⟨i, hi, henters⟩ := Option.bind_eq_some_iff.mp hu
  have hdepth := vm.depth_observe (h.unitAt f.unit).name f.position i
  have hconfig := (vm.observe_keeps (h.unitAt f.unit).name f.position i).config
  have hrefused (learnt : Array Attachment × Vm) (hd : learnt.2.depth = vm.depth)
      (hc : learnt.2.config = vm.config) :
      stepPlain h learnt.1 learnt.2 f rest (h.unitAt f.unit) i.op i.arg =
        .failed ⟨h, learnt.1, { learnt.2 with depth := vm.depth - (rest.length + 1) }, []⟩
          (.limit (.depth (vm.depth + 1) vm.depth)) := by
    rw [stepPlain_full (by rw [hd, hc]; exact hfull) henters, hd]
  rcases step_sees vm rest hw hi with ⟨-, hplain⟩ | ⟨q, s, fam, t, -, -, hsees⟩
  · refine ⟨f, rest, i, _, rfl, hi, .inl rfl, ?_⟩
    exact hplain.trans (hrefused (_, _) hdepth hconfig)
  · obtain rfl := family_of_enters henters hsees.sight hsees.faces
    refine ⟨f, rest, i, _, rfl, hi, .inr ⟨t, rfl⟩, ?_⟩
    exact hsees.eq.trans (hrefused (visit _ _ _ _ _ t) hdepth hconfig)

end Machine

/-! ### Processes -/

/-- The frames of an interpreter that are active, in all of some executions. -/
def Run.active (runs : List Run) (v : Nat) : List Frame :=
  (runs.filter (·.vm = v)).flatMap Run.frames

namespace Run

lemma active_cons_self (r : Run) (rest : List Run) :
    active (r :: rest) r.vm = r.frames ++ active rest r.vm := by
  simp [active]

lemma active_cons_ne {r : Run} {v : Nat} (hv : r.vm ≠ v) (rest : List Run) :
    active (r :: rest) v = active rest v := by
  simp [active, hv]

lemma active_eq_nil {runs : List Run} {v : Nat} (hv : ∀ r ∈ runs, r.vm ≠ v) :
    active runs v = [] := by
  have hnone : runs.filter (·.vm = v) = [] :=
    List.filter_eq_nil_iff.mpr fun r hr => by simpa using hv r hr
  rw [active, hnone, List.flatMap_nil]

end Run

namespace Process

variable {p : Process} {v : Nat}

/-- Interpreters count their frames, in all executions that are under way, and have no more of them
than they may. -/
structure Counts (p : Process) : Prop where
  depth : ∀ v, (p.vmAt v).depth = (Run.active p.runs v).length
  bounded : ∀ v, (p.vmAt v).depth ≤ (p.vmAt v).config.maxFrameDepth
  there : ∀ r ∈ p.runs, r.vm < p.vms.size ∧ r.frames ≠ []

namespace Counts

lemma empty : ({} : Process).Counts where
  depth _ := rfl
  bounded _ := Nat.zero_le _
  there _ hr := absurd hr List.not_mem_nil

/-- No execution goes on, and no interpreter is made. -/
lemma same {p' : Process} (hp : p.Counts) (hruns : p'.runs = p.runs)
    (hsize : p'.vms.size = p.vms.size) (hdepth : ∀ v, (p'.vmAt v).depth = (p.vmAt v).depth)
    (hlimit : ∀ v, (p'.vmAt v).config.maxFrameDepth = (p.vmAt v).config.maxFrameDepth) :
    p'.Counts where
  depth v := by rw [hdepth, hruns, hp.depth]
  bounded v := by rw [hdepth, hlimit]; exact hp.bounded v
  there r hr := by
    rw [hruns] at hr
    rw [hsize]
    exact hp.there r hr

lemma modify (hp : p.Counts) (k : Nat) {f : Vm → Vm} (hdepth : ∀ x, (f x).depth = x.depth)
    (hlimit : ∀ x, (f x).config.maxFrameDepth = x.config.maxFrameDepth) :
    Counts { p with vms := p.vms.modify k f } := by
  have hget (v : Nat) : vmAt { p with vms := p.vms.modify k f } v =
      if k = v ∧ v < p.vms.size then f (p.vmAt v) else p.vmAt v :=
    getD_modify ..
  refine hp.same rfl (Array.size_modify ..) (fun v => ?_) fun v => ?_
  · rw [hget]
    split
    · exact hdepth _
    · rfl
  · rw [hget]
    split
    · exact hlimit _
    · rfl

/-- A new interpreter has no frames. -/
lemma newVm (hp : p.Counts) (c : Config) (h : Heap) :
    Counts { p with
      world := { p.world with heap := h }
      vms := p.vms.push (Vm.create c p.world.heap).1 } := by
  have hget (v : Nat) : vmAt { p with
      world := { p.world with heap := h }
      vms := p.vms.push (Vm.create c p.world.heap).1 } v =
      if v = p.vms.size then (Vm.create c p.world.heap).1 else p.vmAt v :=
    getD_push ..
  refine ⟨fun v => ?_, fun v => ?_, fun r hr => ?_⟩
  · rw [hget]
    split
    · next hv =>
      have hnone : Run.active p.runs v = [] :=
        Run.active_eq_nil fun r hr => by
          have := (hp.there r hr).1
          omega
      rw [hnone]
      rfl
    · exact hp.depth v
  · rw [hget]
    split
    · exact Nat.zero_le _
    · exact hp.bounded v
  · obtain ⟨hlt, hframes⟩ := hp.there r hr
    exact ⟨by rw [Array.size_push]; omega, hframes⟩

/-- One interpreter goes on, above other executions. -/
lemma settle {k limit : Nat} {rest : List Run} {out : Progress} (hk : k < p.vms.size)
    (hrest : ∀ r ∈ rest, r.vm < p.vms.size ∧ r.frames ≠ [])
    (hothers : ∀ v, v ≠ k → (p.vmAt v).depth = (Run.active rest v).length)
    (hbound : ∀ v, (p.vmAt v).depth ≤ (p.vmAt v).config.maxFrameDepth)
    (hout : out.Counts (Run.active rest k).length limit) : (p.settle k rest out).Counts := by
  have hruns : (p.settle k rest out).runs =
      if out.isRunning then ⟨k, out.machine.frames⟩ :: rest else rest := by
    cases out <;> rfl
  refine ⟨fun v => ?_, fun v => ?_, fun r hr => ?_⟩
  · rw [vmAt_settle, hruns]
    by_cases hv : k = v
    · subst hv
      rw [if_pos ⟨rfl, hk⟩]
      split
      · rw [hout.depth, Run.active_cons_self ⟨k, _⟩, List.length_append, Nat.add_comm]
      · next hend => exact hout.ended (by simpa using hend)
    · rw [if_neg fun hc => hv hc.1, hothers v (Ne.symm hv)]
      split
      · rw [Run.active_cons_ne hv]
      · rfl
  · rw [vmAt_settle]
    split
    · rw [hout.config]
      exact hout.bounded
    · exact hbound v
  · have hsize : (p.settle k rest out).vms.size = p.vms.size := Array.size_setIfInBounds ..
    rw [hsize]
    rw [hruns] at hr
    split at hr
    · next hrunning =>
      rcases List.mem_cons.mp hr with rfl | hr
      · exact ⟨hk, by simpa [hrunning] using hout.running⟩
      · exact hrest r hr
    · exact hrest r hr

lemma invoke (hp : p.Counts) {x : Vm} (hx : p.vms[v]? = some x) (i : Invocation) :
    (i.start p.world x).Counts (Run.active p.runs v).length x.config.maxFrameDepth := by
  have hat := vmAt_of_getElem? hx
  have hdepth := hp.depth v
  have hbound := hp.bounded v
  rw [hat] at hdepth hbound
  rw [← hdepth]
  exact (Machine.start_enters p.world x i).counts (i.start_quiet p.world x).vm.config hbound

/-- The execution begun last counts its frames above those of the others. -/
lemma machine (hp : p.Counts) {r : Run} {rest : List Run} {x : Vm} (hruns : p.runs = r :: rest)
    (hx : p.vms[r.vm]? = some x) :
    (Progress.running ⟨p.world.heap, p.world.attachments, x, r.frames⟩).Counts
      (Run.active rest r.vm).length x.config.maxFrameDepth := by
  have hat := vmAt_of_getElem? hx
  have hdepth := hp.depth r.vm
  have hbound := hp.bounded r.vm
  rw [hat] at hdepth hbound
  rw [hruns, Run.active_cons_self, List.length_append, Nat.add_comm] at hdepth
  exact .of_running (hp.there r (by rw [hruns]; exact List.mem_cons_self)).2 hdepth hbound rfl

lemma perform (hw : p.world.Sound) (hp : p.Counts) (a : Action) : (p.perform a).Counts := by
  cases a with
  | newVm config =>
    dsimp only [Process.perform]
    split
    · exact hp.newVm _ _
    · exact hp
  | setMode k mode => exact hp.modify k (fun _ => rfl) fun _ => rfl
  | resetStats k => exact hp.modify k (fun _ => rfl) fun _ => rfl
  | watch k observed => exact hp.modify k (fun _ => rfl) fun _ => rfl
  | invoke k i =>
    dsimp only [Process.perform]
    split
    · next x hx =>
      exact settle (Array.getElem?_eq_some_iff.mp hx).1 hp.there (fun v _ => hp.depth v) hp.bounded
        (hp.invoke hx i)
    · exact hp
  | step =>
    rcases p.machine?_cases with hnone | ⟨r, rest, x, hruns, hx, -⟩
    · have hsame : p.perform .step = p := by
        simp only [Process.perform, hnone]
        cases p.runs <;> rfl
      rw [hsame]
      exact hp
    · rw [perform_step hruns hx]
      refine settle (Array.getElem?_eq_some_iff.mp hx).1
        (fun r' hr' => hp.there r' (by rw [hruns]; exact List.mem_cons_of_mem r hr'))
        (fun v hv => ?_) hp.bounded ((hp.machine hruns hx).step hw)
      rw [hp.depth v, hruns, Run.active_cons_ne (Ne.symm hv)]
  | _ =>
    dsimp only [Process.perform]
    repeat' split
    all_goals exact hp.same rfl rfl (fun _ => rfl) fun _ => rfl

/-- **Whatever happens, interpreters count their frames.** -/
theorem after (hw : p.world.Sound) (hp : p.Counts) (as : List Action) : (p.after as).Counts := by
  induction as generalizing p with
  | nil => exact hp
  | cons a as ih => exact ih (perform_sound hw a) (hp.perform hw a)

end Counts

/-- The depth of every interpreter is balanced and bounded, now and in whatever is begun now. -/
structure DepthBalanced (p : Process) : Prop where
  /-- Interpreters are as deep as they have frames, and no deeper than they may be. -/
  active : ∀ v, (p.vmAt v).depth = (Run.active p.runs v).length ∧
    (p.vmAt v).depth ≤ (p.vmAt v).config.maxFrameDepth
  /-- An execution that is begun leaves the depth as it has found it, whatever it ends with. -/
  begun : ∀ (v : Nat) x (i : Invocation) n, p.vms[v]? = some x →
    let out := (i.start p.world x).advance n
    out.Counts x.depth x.config.maxFrameDepth ∧
      (out.isRunning = false → out.machine.vm.depth = x.depth)
  /-- So do inner frames of an execution under way. They go on as if they were alone until they have
  come to an end, with a value for the frames around them or an error that comes through these. -/
  nested : ∀ m inner outer n, p.machine? = some m → m.frames = inner ++ outer → inner ≠ [] →
    let alone := Progress.running { m with frames := inner }
    (alone.advance n).Counts (m.vm.depth - inner.length) m.vm.config.maxFrameDepth ∧
      ((alone.advance n).isRunning = false →
        (alone.advance n).machine.vm.depth = m.vm.depth - inner.length) ∧
      ((∀ k < n, (alone.advance k).isRunning = true) →
        (Progress.running m).advance n = (alone.advance n).onto outer)
  /-- An interpreter that is as deep as it may be begins nothing that takes a frame. -/
  full : ∀ (v : Nat) x (i : Invocation) u, p.vms[v]? = some x → i.enters? p.world.heap = some u →
    x.depth = x.config.maxFrameDepth →
      i.start p.world x = .failed (Machine.idle p.world x) (.limit (.depth (x.depth + 1) x.depth))
  /-- Nor does it enter a frame from another one. -/
  refuses : ∀ m u, p.machine? = some m → m.enters? = some u →
    m.vm.depth = m.vm.config.maxFrameDepth → m.Refuses
  /-- Where no execution is under way, an interpreter is one of depth zero. -/
  idle : ∀ v, (∀ r ∈ p.runs, r.vm ≠ v) →
    { p with vms := p.vms.modify v fun x => { x with depth := 0 } } = p

lemma Counts.modify_idle (hp : p.Counts) (hv : ∀ r ∈ p.runs, r.vm ≠ v) :
    p.vms.modify v (fun x => { x with depth := 0 }) = p.vms := by
  have hsame (x : Vm) (hx : x.depth = 0) : { x with depth := 0 } = x := by rw [← hx]
  refine Array.ext (Array.size_modify ..) fun k hk hk' => ?_
  rw [Array.getElem_modify]
  split
  · next hvk =>
    subst hvk
    have hdepth := hp.depth v
    rw [Run.active_eq_nil hv, vmAt_of_getElem? (Array.getElem?_eq_getElem hk')] at hdepth
    exact hsame _ hdepth
  · rfl

/-- Inner frames count themselves, and have an end of their own. -/
lemma Counts.nested (hw : p.world.Sound) (hp : p.Counts) {m : Machine} {inner outer : List Frame}
    (hm : p.machine? = some m) (hframes : m.frames = inner ++ outer) (hinner : inner ≠ [])
    (n : Nat) :
    let alone := Progress.running { m with frames := inner }
    (alone.advance n).Counts (m.vm.depth - inner.length) m.vm.config.maxFrameDepth ∧
      ((alone.advance n).isRunning = false →
        (alone.advance n).machine.vm.depth = m.vm.depth - inner.length) ∧
      ((∀ k < n, (alone.advance k).isRunning = true) →
        (Progress.running m).advance n = (alone.advance n).onto outer) := by
  rcases p.machine?_cases with hnone | ⟨r, rest, x, hruns, hx, hsome⟩
  · cases hnone.symm.trans hm
  obtain rfl := Option.some.inj (hsome.symm.trans hm)
  obtain ⟨vm, frames⟩ := r
  obtain rfl : frames = inner ++ outer := hframes
  have hcounts := hp.machine hruns hx
  have hdepth : x.depth = (Run.active rest vm).length + (inner ++ outer).length := hcounts.depth
  rw [List.length_append] at hdepth
  have halone : (Progress.running
      ⟨p.world.heap, p.world.attachments, x, inner⟩).Counts (x.depth - inner.length)
        x.config.maxFrameDepth := by
    refine .of_running hinner ?_ hcounts.bounded rfl
    show x.depth = x.depth - inner.length + inner.length
    omega
  have hadvance := halone.advance n (by exact hw)
  exact ⟨hadvance, hadvance.ended, halone.advance_onto outer n (by exact hw)⟩

/-- **Call depth is balanced and bounded.** -/
theorem depth_balanced (as : List Action) : (({} : Process).after as).DepthBalanced := by
  have hw : (({} : Process).after as).world.Sound := after_sound World.sound_empty as
  have hp : (({} : Process).after as).Counts := Counts.empty.after World.sound_empty as
  generalize ({} : Process).after as = p at hw hp
  refine ⟨fun v => ⟨hp.depth v, hp.bounded v⟩, fun v x i n hx => ?_, ?_,
    fun v x i u _ hu hfull => ?_, fun m u hm hu hfull => ?_, fun v hv => ?_⟩
  · have hcounts : ((i.start p.world x).advance n).Counts x.depth x.config.maxFrameDepth := by
      have hdepth := hp.depth v
      rw [vmAt_of_getElem? hx] at hdepth
      rw [hdepth]
      exact (hp.invoke hx i).advance n (hw.quiet (i.start_quiet p.world x))
    exact ⟨hcounts, hcounts.ended⟩
  · intro m inner outer n hm hframes hinner
    exact hp.nested hw hm hframes hinner n
  · exact Machine.start_full hfull hu
  · obtain ⟨hheap, hatt⟩ := machine?_eq_some hm
    exact Machine.step_refuses (by rw [hheap, hatt]; exact hw) hfull hu
  · rw [hp.modify_idle hv]

/-- A function calls itself and is as deep as it may be. -/
def descending : List Action :=
  [.newVm { maxFrameDepth := 2, warmupThreshold := 1, specializeThreshold := 2 },
   .request (.newModule "main"),
   .addUnit
    { name := "f"
      instrs := #[⟨.loadGlobal, 0⟩, ⟨.call, 0⟩, ⟨.ret, 0⟩]
      names := #["f"] },
   .request (.newFunction 0 ⟨1, "main"⟩ []),
   .request (.assign 1 "f" (.function ⟨0, "f"⟩)),
   .invoke 0 (.call (.function ⟨0, "f"⟩) []), .step, .step, .step]

theorem depth_balanced_descending :
    let p := ({} : Process).after descending
    let q := ({} : Process).after (descending ++ [.step])
    (p.vmAt 0).depth = 2 ∧ (∃ m, p.machine? = some m ∧ m.enters? = some 0 ∧ m.Refuses) ∧
      (q.vmAt 0).depth = 0 ∧
      { q with vms := q.vms.modify 0 fun x => { x with depth := 0 } } = q := by
  intro p q
  have hp := depth_balanced descending
  have hq := depth_balanced (descending ++ [.step])
  have hended : q.runs = [] := by decide +kernel
  have hsome : p.machine?.isSome = true := by decide +kernel
  obtain ⟨m, hm⟩ := Option.isSome_iff_exists.mp hsome
  have henters : p.machine?.bind Machine.enters? = some 0 := by decide +kernel
  have hfull : p.machine?.map (fun m => m.vm.depth) =
      p.machine?.map (fun m => m.vm.config.maxFrameDepth) := by decide +kernel
  rw [hm] at henters hfull
  refine ⟨?_, ⟨m, hm, henters, hp.refuses m 0 hm henters (Option.some.inj hfull)⟩, ?_, ?_⟩
  · exact (hp.active 0).1.trans (by decide +kernel)
  · exact (hq.active 0).1.trans (by decide +kernel)
  · exact hq.idle 0 fun r hr => by rw [hended] at hr; cases hr

end Process

end AdaptiveVM
