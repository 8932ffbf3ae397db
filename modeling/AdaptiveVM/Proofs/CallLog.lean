import AdaptiveVM.Proofs.FirstRun

/-!
The builtins that an execution calls.

Whether the next step calls a builtin can be seen before it is taken: the innermost frame stands at
a call, and below the arguments on its stack there is a builtin. The calls of an execution are thus
a list that its steps write from left to right. A machine that traces makes the same calls; so where
its steps lead to a return, and call some builtins on the way, the real execution ends with the same
value after the same calls, provided that short units can be quickened.
-/

namespace AdaptiveVM

open Assembler (Line)

/-! ### Calls of builtins -/

/-- A call of a builtin. -/
structure BuiltinCall where
  builtin : Ref .builtin
  /-- The first local slot of the frame that calls. -/
  slot : Option Value
  /-- The answer, if it is a value. -/
  answer : Option Value

/-- The builtin that a frame is about to call. -/
def Frame.builtinCall? (f : Frame) (h : Heap) : Option BuiltinCall :=
  match (h.unitAt f.unit).instr? f.position with
  | some ⟨.call, argc⟩ =>
    match f.popMany? argc.toNat with
    | some (args, .builtin b :: _) =>
      some ⟨b, f.locals.getD 0 none, (h.invoke b args).1.toOption⟩
    | _ => none
  | _ => none

def Machine.builtinCall? (m : Machine) : Option BuiltinCall :=
  m.frames.head?.bind (·.builtinCall? m.heap)

namespace Progress

/-- The builtins that are called within some number of steps, in order. -/
def builtinCalls : Nat → Progress → List BuiltinCall
  | fuel + 1, .running m => m.builtinCall?.toList ++ builtinCalls fuel m.step
  | _, _ => []

/-- The execution ends after these calls of builtins, and its end is as described. -/
def EndsCalling (p : Progress) (log : List BuiltinCall) (R : Machine.Ending → Prop) : Prop :=
  ∃ n e, p.run n = some e ∧ p.builtinCalls n = log ∧ R e

end Progress

namespace Machine

variable {c : Config} {Q Q' : Machine → Prop} {R : Ending → Prop} {P : Heap → Prop}
  {log : List BuiltinCall} {a : Array Attachment} {s : Stats} {m t : Machine} {v : Value}

lemma builtinCall?_traced (m : Machine) (a : Array Attachment) (s : Stats) :
    (m.traced a s).builtinCall? = m.builtinCall? := by
  obtain ⟨h, _, vm, _ | ⟨f, rest⟩⟩ := m
  · rfl
  · rfl

lemma endsCalling_of_step (h : m.step.EndsCalling log R) :
    (Progress.running m).EndsCalling (m.builtinCall?.toList ++ log) R := by
  obtain ⟨n, e, he, hlog, hr⟩ := h
  refine ⟨n + 1, e, he, ?_, hr⟩
  rw [Progress.builtinCalls, hlog]

/-! ### Where steps lead, and what they call -/

/-- Steps through short units lead to the goal, and call these builtins on the way. -/
inductive LeadsCalling (c : Config) (Q : Machine → Prop) : List BuiltinCall → Machine → Prop where
  | here {t : Machine} (goal : Q t) : LeadsCalling c Q [] t
  | step {t t' : Machine} {log : List BuiltinCall} (next : t.step = .running t')
      (stays : Stays c t t') (rest : LeadsCalling c Q log t') :
      LeadsCalling c Q (t.builtinCall?.toList ++ log) t

def StaysQuiet (c : Config) (t t' : Machine) : Prop := Stays c t t' ∧ t.builtinCall? = none

lemma LeadsCalling.of_quiet (hl : Leads (StaysQuiet c) (fun _ => False) Q t)
    (hnext : ∀ t', Q t' → LeadsCalling c Q' log t') : LeadsCalling c Q' log t := by
  induction hl with
  | here goal => exact hnext _ goal
  | step next allowed _ ih =>
    have hstep := LeadsCalling.step next allowed.1 ih
    rwa [allowed.2] at hstep
  | stop _ tolerated => exact tolerated.elim

/-- The next step calls no builtin and returns a value, with the heap as described. -/
structure ReturnsIn (v : Value) (P : Heap → Prop) (t : Machine) : Prop where
  quiet : t.builtinCall? = none
  returns : ∃ t', t.step = .returned t' v ∧ P t'.heap

lemma ReturnsIn.ends (hm : World.Sound ⟨m.heap, m.attachments⟩)
    (hreturns : ReturnsIn v P (m.traced a s)) :
    (Progress.running m).EndsCalling [] fun e => e.result = .ok v ∧ P e.heap := by
  obtain ⟨t, ht, hP⟩ := hreturns.returns
  have hquiet := hreturns.quiet
  rw [builtinCall?_traced] at hquiet
  have hshadows := m.step_shadows hm a s
  rw [ht] at hshadows
  cases hshadows with
  | same eq =>
    obtain ⟨m', hm'⟩ := returned_of_traced eq
    rw [hm'] at eq
    obtain ⟨rfl, -⟩ := Progress.returned.inj eq
    refine ⟨1, ⟨m'.heap, m'.attachments, m'.vm, .ok v⟩, ?_, ?_, rfl, hP⟩
    · rw [Progress.run, hm']
      rfl
    · rw [Progress.builtinCalls, hquiet]
      rfl

/-- **What tracing calls, real executions call.** -/
theorem LeadsCalling.ends (hroomy : c.Roomy) (hm : World.Sound ⟨m.heap, m.attachments⟩)
    (hl : LeadsCalling c (ReturnsIn v P) log (m.traced a s)) :
    (Progress.running m).EndsCalling log fun e => e.result = .ok v ∧ P e.heap := by
  generalize ht : m.traced a s = t at hl
  induction hl generalizing m with
  | here goal => exact ReturnsIn.ends hm (ht ▸ goal)
  | step next stays _ ih =>
    subst ht
    have hshadows := m.step_shadows hm a s
    rw [next] at hshadows
    rw [builtinCall?_traced]
    refine endsCalling_of_step ?_
    cases hshadows with
    | same eq =>
      obtain ⟨m', hstep, ht'⟩ := running_of_traced eq
      rw [hstep]
      exact ih (sound_of_step hm hstep) ht'
    | starved failed frames code =>
      have hmem : m.vm.config.memoryLimit = c.memoryLimit := stays.1
      have hcode := stays.2 _ (by rw [frames]; rfl)
      exact absurd code (hroomy.not_starves hmem hcode)

theorem start_endsCalling {w : World} {u : Nat} {g b : Ref .mod} (hw : w.Sound) (hroomy : c.Roomy)
    (hargs : (w.heap.unitAt u).argcount = 0) (hsize : (w.heap.unitAt u).instrs.size ≤ 255)
    (hl : LeadsCalling c (ReturnsIn v P) log
      (standing #[] (.tracer c b 1) [] u g w.heap
        (Binding.slots (w.heap.unitAt u).nlocals.toNat []) 0)) :
    (start w { config := c, builtins := b } u g).EndsCalling log
      fun e => e.result = .ok v ∧ P e.heap := by
  have hdepth : c.maxFrameDepth ≠ 0 := by
    have hdefault : 512 ≤ c.maxFrameDepth := hroomy.2
    omega
  rcases start_shadows (g := g) (b := b) hdepth hargs with eq | ⟨failed, frames, code⟩
  · obtain ⟨m, hm, ht⟩ := running_of_traced eq
    rw [hm]
    rw [← ht] at hl
    exact hl.ends hroomy (hw.quiet (quiet_of_start hm))
  · obtain ⟨rfl, -⟩ := List.cons.inj frames
    exact absurd code (hroomy.not_starves rfl hsize)

/-! ### Lines -/

variable {b : Ref .mod} {depth : Nat} {f : Frame} {rest : List Frame} {lines : List Line}
  {h h' : Heap}

lemma builtinCall?_of_renders {vm : Vm} (hr : (h.unitAt f.unit).Renders lines)
    (hcall : ∀ arg, lines[f.position]? ≠ some (.op .call arg)) :
    builtinCall? ⟨h, a, vm, f :: rest⟩ = none := by
  show f.builtinCall? h = none
  unfold Frame.builtinCall?
  split
  · next argc hi => exact absurd (hr.line_of_call hi rfl) (hcall argc)
  · rfl

lemma LeadsCalling.walk {f' : Frame} {k : Nat} (hquick : f.quick = false)
    (hr : (h.unitAt f.unit).Renders lines) (hlength : lines.length ≤ 255)
    (hw : f.walk lines h b k = some f')
    (ht : LeadsCalling c Q log ⟨h, a, .tracer c b depth, f' :: rest⟩) :
    LeadsCalling c Q log ⟨h, a, .tracer c b depth, f :: rest⟩ := by
  refine .of_quiet (Q := (· = ⟨h, a, .tracer c b depth, f' :: rest⟩))
    (.walk (Vm.plain_tracer c b depth) hquick hr (fun f₁ f₂ h₁ h₂ hcall => ?_) hw (.here rfl)) ?_
  · exact ⟨stays_of_renders rfl (h₂ ▸ hr) hlength, builtinCall?_of_renders (h₁ ▸ hr) hcall⟩
  · rintro _ rfl
    exact ht

/-- A call of a builtin that answers with a value. -/
lemma LeadsCalling.call {argc : UInt8} {args below : List Value} {r : Ref .builtin}
    (hquick : f.quick = false) (hr : (h.unitAt f.unit).Renders lines)
    (hlength : lines.length ≤ 255) (hl : lines[f.position]? = some (.op .call argc))
    (hpop : f.popMany? argc.toNat = some (args, .builtin r :: below))
    (hinvoke : h.invoke r args = (.ok v, h')) (hunits : h'.units = h.units)
    (ht : LeadsCalling c Q log
      ⟨h', a, .tracer c b depth,
        { f with stack := v :: below, position := f.position + 1 } :: rest⟩) :
    LeadsCalling c Q (⟨r, f.locals.getD 0 none, some v⟩ :: log)
      ⟨h, a, .tracer c b depth, f :: rest⟩ := by
  have hi : (h.unitAt f.unit).instr? f.position = some ⟨.call, argc⟩ := hr.carries _ _ hl
  have hcall : builtinCall? ⟨h, a, .tracer c b depth, f :: rest⟩ =
      some ⟨r, f.locals.getD 0 none, some v⟩ := by
    show f.builtinCall? h = _
    simp only [Frame.builtinCall?, hi, hpop, hinvoke]
    rfl
  have he : (Line.op .call argc).effect f h b =
      .ok (.call { f with stack := below } (.builtin r) args) := by
    simp only [Line.effect, Frame.effect, hpop]
  have hanswer : callBuiltin ⟨h, a, .tracer c b depth, { f with stack := below } :: rest⟩ r args =
      .running ⟨h', a, .tracer c b depth,
        { f with stack := v :: below, position := f.position + 1 } :: rest⟩ := by
    simp only [callBuiltin, hinvoke]
    rfl
  have hr' : (h'.unitAt f.unit).Renders lines := by
    rw [Heap.unitAt, hunits]
    exact hr
  have hstep : Machine.step ⟨h, a, .tracer c b depth, f :: rest⟩ = _ :=
    (step_line (Vm.plain_tracer c b depth) hquick hr hl he).trans hanswer
  have hleads := LeadsCalling.step hstep (stays_of_renders (c := c) rfl hr' hlength) ht
  rwa [hcall] at hleads

lemma returnsIn_line {vm : Vm} {i : UInt8} {stack : List Value} (hvm : vm.Plain)
    (hquick : f.quick = false) (hr : (h.unitAt f.unit).Renders lines)
    (hl : lines[f.position]? = some (.op .ret i)) (hstack : f.stack = v :: stack) (hP : P h) :
    ReturnsIn v P ⟨h, a, vm, [f]⟩ := by
  have he : (Line.op .ret i).effect f h vm.builtins = .ok (.leave v) := by
    simp only [Line.effect, Frame.effect, hstack]
  refine ⟨builtinCall?_of_renders hr fun arg hcall => ?_,
    ⟨h, a, { vm with depth := vm.depth - 1 }, []⟩, (step_line hvm hquick hr hl he).trans rfl, hP⟩
  cases hl.symm.trans hcall

end Machine

end AdaptiveVM
