import AdaptiveVM.Proofs.Process
import AdaptiveVM.Proofs.Tracing

/-!
Adapting and tracing compute the same.

A member executes as its static instruction does, apart from what happens to attachments and counts.
By that a step of a machine and a step of the machine that traces keep in step, and so do whole
executions, until memory runs out.
-/

namespace AdaptiveVM

namespace Machine

/-- A frame that reads its static stream executes as it would in a machine that traces. -/
lemma step_static_shadows (m : Machine) (a' : Array Attachment) (s : Stats)
    (hm : ∀ f ∈ m.frames.head?,
      f.quick = false ∨ (m.attachments.getD f.unit default).quickened = none) :
    m.step.Shadows m.vm.config a' s (m.traced a' s).step := by
  obtain ⟨h, a, vm, _ | ⟨f, rest⟩⟩ := m
  · exact .same rfl
  show (step ⟨h, a, vm, f :: rest⟩).Shadows vm.config a' s
    (step ⟨h, a', vm.traced s, f.traced :: rest.map Frame.traced⟩)
  rcases hi : (h.unitAt f.unit).instr? f.position with _ | i
  · have hi' : (h.unitAt f.traced.unit).instr? f.traced.position = none := hi
    rw [step_of_none hi, step_of_none hi']
    exact .same (leave_traced h a vm rest .none)
  · have hi' : (h.unitAt f.traced.unit).instr? f.traced.position = some i := hi
    rw [step_of_some hi, step_of_some hi', fetch_of_static (f := f.traced) (.inl rfl),
      fetch_of_static (hm f rfl), execute_plain, execute_plain, ← observe_traced,
      ← (vm.observe_keeps (h.unitAt f.unit).name f.position i).config]
    exact stepPlain_shadows ..

/-- **Steps keep in step**: a step of a machine in a sound world is a step of the machine that
traces, unless there is not the memory for the unit it goes on in. -/
theorem step_shadows (m : Machine) (hm : World.Sound ⟨m.heap, m.attachments⟩)
    (a' : Array Attachment) (s : Stats) : m.step.Shadows m.vm.config a' s (m.traced a' s).step := by
  obtain ⟨h, a, vm, _ | ⟨f, rest⟩⟩ := m
  · exact .same rfl
  show (step ⟨h, a, vm, f :: rest⟩).Shadows vm.config a' s
    (step ⟨h, a', vm.traced s, f.traced :: rest.map Frame.traced⟩)
  rcases hi : (h.unitAt f.unit).instr? f.position with _ | i
  · have hi' : (h.unitAt f.traced.unit).instr? f.traced.position = none := hi
    rw [step_of_none hi, step_of_none hi']
    exact .same (leave_traced h a vm rest .none)
  have hi' : (h.unitAt f.traced.unit).instr? f.traced.position = some i := hi
  rw [step_of_some (a := a') hi', fetch_of_static (f := f.traced) (.inl rfl), execute_plain,
    ← observe_traced, ← (vm.observe_keeps (h.unitAt f.unit).name f.position i).config]
  rcases step_sees vm rest hm hi with ⟨-, hplain⟩ | ⟨q, s', fam, t, -, -, hsees⟩
  · rw [hplain]
    exact stepPlain_shadows ..
  · -- the event is at the site and in the counts, where the machine that traces has nothing
    rw [hsees.eq]
    exact stepPlain_shadows ..

/-! ### Executions -/

/-- What a program and its host can see of the end of an execution. -/
def Ending.seen (e : Ending) : Heap × Except Error Value × Array TraceEvent :=
  (e.heap, e.result, e.vm.events)

/-- The execution has ended for want of memory. -/
def Ending.outOfMemory (e : Ending) : Bool :=
  match e.result with
  | .error e => e.isMemoryLimit
  | .ok _ => false

end Machine

/-- **Executions keep in step**: after any number of steps both are still going, or both have ended
and nothing that can be seen differs, or memory has run out. -/
theorem Progress.run_traces (p p' : Progress)
    (hp : World.Sound ⟨p.machine.heap, p.machine.attachments⟩) {a' : Array Attachment} {s : Stats}
    (ht : p.Traces a' s p') (n : Nat) :
    (∃ e, p.run n = some e ∧ e.outOfMemory = true) ∨
      (p.run n).map Machine.Ending.seen = (p'.run n).map Machine.Ending.seen := by
  induction n generalizing p p' with
  | zero =>
    rcases ht with ht | rfl
    · cases p with
      | running m => cases ht
      | returned m v => cases ht
      | failed m e => exact .inl ⟨_, rfl, ht⟩
    · cases p <;> exact .inr rfl
  | succ n ih =>
    cases p with
    | running m =>
      rcases ht with ht | rfl
      · cases ht
      · exact ih m.step (m.traced a' s).step hp.step (m.step_shadows hp a' s).traces
    | returned m v =>
      rcases ht with ht | rfl
      · cases ht
      · exact .inr rfl
    | failed m e =>
      rcases ht with ht | rfl
      · exact .inl ⟨_, rfl, ht⟩
      · exact .inr rfl

lemma Invocation.start_traces (w : World) (vm : Vm) (i : Invocation) :
    (i.start w (vm.setMode .adaptive)).Traces w.attachments vm.stats
      (i.start w (vm.setMode .tracing)) := by
  cases i with
  | run unit globals =>
    unfold start Machine.start
    dsimp only
    split
    · exact .inr rfl
    · exact (Machine.enter_shadows (Machine.idle w (vm.setMode .adaptive)) _ _ _).traces
  | call callee args =>
    exact (Machine.call_shadows (Machine.idle w (vm.setMode .adaptive)) callee args).traces

namespace Process

/-- **Adapting is tracing**: whatever hosts and interpreters have done before, an execution that
adapts and one of the same interpreter that traces are after any number of steps both still going,
or both have ended with the same answer or error, the same heap and tokens and the same trace,
provided that memory has not run out. -/
theorem adaptive_eq_tracing (as : List Action) (vm : Vm) (i : Invocation) (n : Nat)
    (hmem : ∀ e, (i.start (({} : Process).after as).world (vm.setMode .adaptive)).run n = some e →
      e.outOfMemory = false) :
    ((i.start (({} : Process).after as).world (vm.setMode .adaptive)).run n).map
        Machine.Ending.seen =
      ((i.start (({} : Process).after as).world (vm.setMode .tracing)).run n).map
        Machine.Ending.seen := by
  have hw : (({} : Process).after as).world.Sound := after_sound World.sound_empty as
  have hstart := i.start_traces (({} : Process).after as).world vm
  rcases Progress.run_traces _ _ (hw.quiet (i.start_quiet _ _)) hstart n with ⟨e, he, hout⟩ | hsame
  · rw [hmem e he] at hout
    cases hout
  · exact hsame

/-- The other interpreter runs the specialized unit where the global is a text. -/
theorem adaptive_eq_tracing_texts :
    ((((Invocation.run 0 ⟨3, "texts"⟩).start (({} : Process).after doubling).world
        (((({} : Process).after doubling).vmAt 1).setMode .adaptive)).run 5).map
          Machine.Ending.outOfMemory = some false) ∧
      (((Invocation.run 0 ⟨3, "texts"⟩).start (({} : Process).after doubling).world
          (((({} : Process).after doubling).vmAt 1).setMode .adaptive)).run 5).map
          Machine.Ending.seen =
        (((Invocation.run 0 ⟨3, "texts"⟩).start (({} : Process).after doubling).world
          (((({} : Process).after doubling).vmAt 1).setMode .tracing)).run 5).map
          Machine.Ending.seen := by
  have hends : (((Invocation.run 0 ⟨3, "texts"⟩).start (({} : Process).after doubling).world
      (((({} : Process).after doubling).vmAt 1).setMode .adaptive)).run 5).map
        Machine.Ending.outOfMemory = some false := by decide +kernel
  refine ⟨hends, adaptive_eq_tracing doubling _ (.run 0 ⟨3, "texts"⟩) 5 fun e he => ?_⟩
  rw [he] at hends
  exact Option.some.inj hends

end Process

end AdaptiveVM
