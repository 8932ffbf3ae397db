import AdaptiveVM.Proofs.Lines
import AdaptiveVM.Proofs.Safety

/-!
Where an execution leads.

A program is followed as a machine would execute it that traces: there every step can be computed
from the line at the position of the innermost frame. A machine *leads* to a goal if allowed steps
take it there, or to an error that is tolerated. What the machine that traces does, the real one
does too, unless there is not the memory to quicken a unit; so a claim about where a program leads
is a claim about real executions.
-/

namespace AdaptiveVM

open Assembler (Line)

/-! ### Executions that end -/

/-- The execution ends, and its end is as described. -/
def Progress.Ends (p : Progress) (R : Machine.Ending → Prop) : Prop := ∃ n e, p.run n = some e ∧ R e

namespace Machine

variable {S : Machine → Machine → Prop} {E : Error → Prop} {Q Q' : Machine → Prop}
  {R : Ending → Prop} {J : Machine → Prop} {a : Array Attachment} {s : Stats} {m t : Machine}

lemma ends_of_step (h : m.step.Ends R) : (Progress.running m).Ends R := by
  obtain ⟨n, e, he, hr⟩ := h
  exact ⟨n + 1, e, he, hr⟩

lemma ends_returned {v : Value} (h : R ⟨m.heap, m.attachments, m.vm, .ok v⟩) :
    (Progress.returned m v).Ends R :=
  ⟨0, _, rfl, h⟩

lemma ends_failed {e : Error} (h : R ⟨m.heap, m.attachments, m.vm, .error e⟩) :
    (Progress.failed m e).Ends R :=
  ⟨0, _, rfl, h⟩

/-- Allowed steps lead to the goal, or to an error that is tolerated. -/
inductive Leads (S : Machine → Machine → Prop) (E : Error → Prop) (Q : Machine → Prop) :
    Machine → Prop where
  | here {t : Machine} (goal : Q t) : Leads S E Q t
  | step {t t' : Machine} (next : t.step = .running t') (allowed : S t t')
      (rest : Leads S E Q t') : Leads S E Q t
  | stop {t m : Machine} {e : Error} (failed : t.step = .failed m e) (tolerated : E e) :
      Leads S E Q t

/-- One goal after another. -/
lemma Leads.trans (h : Leads S E Q t) (hnext : ∀ t', Q t' → Leads S E Q' t') : Leads S E Q' t := by
  induction h with
  | here goal => exact hnext _ goal
  | step next allowed _ ih => exact .step next allowed ih
  | stop failed tolerated => exact .stop failed tolerated

/-! ### From tracing to real executions -/

lemma running_of_traced {p : Progress} (h : p.traced a s = .running t) :
    ∃ m, p = .running m ∧ m.traced a s = t := by
  cases p with
  | running m => exact ⟨m, rfl, Progress.running.inj h⟩
  | returned m v => cases h
  | failed m e => cases h

lemma returned_of_traced {p : Progress} {v : Value} (h : p.traced a s = .returned t v) :
    ∃ m, p = .returned m v := by
  cases p with
  | running m => cases h
  | returned m v' => exact ⟨m, by rw [(Progress.returned.inj h).2]⟩
  | failed m e => cases h

lemma failed_of_traced {p : Progress} {e : Error} (h : p.traced a s = .failed t e) :
    ∃ m, p = .failed m e := by
  cases p with
  | running m => cases h
  | returned m v => cases h
  | failed m e' => exact ⟨m, by rw [(Progress.failed.inj h).2]⟩

/-- What is asked of an end of an execution for want of memory, or with an error. -/
structure Accepts (S : Machine → Machine → Prop) (E : Error → Prop) (J : Machine → Prop)
    (a : Array Attachment) (s : Stats) (R : Ending → Prop) : Prop where
  tolerated : ∀ e x, E x → e.result = .error x → R e
  starved : ∀ m t f rest e requested limit, J m → S (m.traced a s) t → t.frames = f :: rest →
    m.vm.config.Starves (t.heap.unitAt f.unit).instrs →
      e.result = .error (.limit (.memory requested limit)) → R e

/-- **Where tracing leads, real executions lead.** An invariant that holds of the machine and that
allowed steps keep holds when the goal is reached. -/
theorem Leads.ends (hsound : ∀ m, J m → World.Sound ⟨m.heap, m.attachments⟩)
    (hkeep : ∀ m m', J m → m.step = .running m' → S (m.traced a s) (m'.traced a s) → J m')
    (hgoal : ∀ m, J m → Q (m.traced a s) → (Progress.running m).Ends R)
    (haccepts : Accepts S E J a s R) (hm : J m) (hl : Leads S E Q (m.traced a s)) :
    (Progress.running m).Ends R := by
  generalize ht : m.traced a s = t at hl
  induction hl generalizing m with
  | here goal => exact hgoal m hm (ht ▸ goal)
  | step next allowed _ ih =>
    subst ht
    have hshadows := m.step_shadows (hsound m hm) a s
    rw [next] at hshadows
    refine ends_of_step ?_
    cases hshadows with
    | same eq =>
      obtain ⟨m', hstep, ht'⟩ := running_of_traced eq
      rw [hstep]
      exact ih (hkeep m m' hm hstep (ht' ▸ allowed)) ht'
    | starved failed frames code =>
      rw [failed]
      exact ends_failed (haccepts.starved _ _ _ _ _ _ _ hm allowed frames code rfl)
  | stop failed tolerated =>
    subst ht
    have hshadows := m.step_shadows (hsound m hm) a s
    rw [failed] at hshadows
    refine ends_of_step ?_
    cases hshadows with
    | same eq =>
      obtain ⟨m', hstep⟩ := failed_of_traced eq
      rw [hstep]
      exact ends_failed (haccepts.tolerated _ _ tolerated rfl)

/-- The same for the first step, whatever starts the execution. -/
theorem Leads.ends_of_shadows (hsound : ∀ m, J m → World.Sound ⟨m.heap, m.attachments⟩)
    (hkeep : ∀ m m', J m → m.step = .running m' → S (m.traced a s) (m'.traced a s) → J m')
    (hgoal : ∀ m, J m → Q (m.traced a s) → (Progress.running m).Ends R)
    (haccepts : Accepts S E J a s R) {p : Progress} {c : Config}
    (hp : p.Shadows c a s (.running t)) (hstart : ∀ m, p = .running m → J m)
    (hstarved : ∀ f rest e requested limit, t.frames = f :: rest →
      c.Starves (t.heap.unitAt f.unit).instrs →
        e.result = .error (.limit (.memory requested limit)) → R e)
    (hl : Leads S E Q t) : p.Ends R := by
  cases hp with
  | same eq =>
    obtain ⟨m, rfl, rfl⟩ := running_of_traced eq
    exact hl.ends hsound hkeep hgoal haccepts (hstart m rfl)
  | starved failed frames code =>
    rw [failed]
    exact ends_failed (hstarved _ _ _ _ _ frames code rfl)

end Machine

/-! ### Lines -/

/-- The interpreter traces, and nobody is watching. -/
structure Vm.Plain (vm : Vm) : Prop where
  mode : vm.config.mode = .tracing
  unobserved : vm.observed = false

lemma Vm.Plain.deeper {vm : Vm} (hvm : vm.Plain) (depth : Nat) : { vm with depth }.Plain :=
  ⟨hvm.mode, hvm.unobserved⟩

/-- A frame with nothing on its stack. -/
def Frame.resting (u : Nat) (g : Ref .mod) (locals : Array (Option Value)) (p : Nat) : Frame :=
  { unit := u, globals := g, locals, position := p }

/-- The innermost frame stands at a position of a unit, with nothing on its stack. -/
abbrev Machine.standing (a : Array Attachment) (vm : Vm) (rest : List Frame) (u : Nat)
    (g : Ref .mod) (h : Heap) (locals : Array (Option Value)) (p : Nat) : Machine :=
  ⟨h, a, vm, .resting u g locals p :: rest⟩

/-- The frame after an effect that concerns only the frame and leaves the heap alone. -/
def Effect.goes? : Effect → Option Frame
  | .next f => some f.advance
  | .jump f target => some { f with position := target }
  | _ => none

/-- Follows lines that concern only their own frame. -/
def Frame.walk (lines : List Line) (h : Heap) (b : Ref .mod) : Nat → Frame → Option Frame
  | 0, f => some f
  | k + 1, f =>
    match lines[f.position]? with
    | none => none
    | some l =>
      match l.effect f h b with
      | .error _ => none
      | .ok e =>
        match e.goes? with
        | none => none
        | some f' => walk lines h b k f'

namespace Assembler.Line

variable {l : Line} {f f' : Frame} {h : Heap} {b : Ref .mod} {e : Effect}

lemma effect_eq (l : Line) (f : Frame) (h : Heap) (b : Ref .mod) :
    ∃ u op arg, l.effect f h b = f.effect h b u op arg := by
  cases l with
  | op op arg => exact ⟨{}, op, arg, rfl⟩
  | const v => exact ⟨{ constants := #[v] }, .loadConst, 0, rfl⟩
  | name op key => exact ⟨{ names := #[key] }, op, 0, rfl⟩

/-- What stays in a frame stays in its unit. -/
lemma effect_goes (he : l.effect f h b = .ok e) (hg : e.goes? = some f') :
    f'.unit = f.unit ∧ f'.quick = f.quick := by
  obtain ⟨u, op, arg, heq⟩ := l.effect_eq f h b
  rw [heq] at he
  cases e with
  | next f₁ =>
    obtain ⟨hunit, -, hquick⟩ := Frame.effect_frame he rfl
    obtain rfl := Option.some.inj hg
    exact ⟨hunit, hquick⟩
  | jump f₁ target =>
    obtain ⟨hunit, -, hquick⟩ := Frame.effect_frame he rfl
    obtain rfl := Option.some.inj hg
    exact ⟨hunit, hquick⟩
  | _ => cases hg

/-- A call does not stay in its frame. -/
lemma ne_call_of_goes (he : l.effect f h b = .ok e) (hg : e.goes? = some f') (arg : UInt8) :
    l ≠ .op .call arg := by
  rintro rfl
  simp only [effect, Frame.effect] at he
  split at he
  · cases he
    cases hg
  · cases he

end Assembler.Line

/-- What an instruction computes from the two values on top of the stack. -/
def Opcode.compute? : Opcode → Option (Value → Value → Except Fault Value)
  | .binaryAdd => some Operation.add
  | .binarySub => some Operation.sub
  | .compareLt => some Operation.lessThan
  | _ => none

namespace Frame

variable {lines : List Line} {h : Heap} {b g : Ref .mod} {u p k : Nat} {l : Line} {e : Effect}
  {f f' : Frame} {locals : Array (Option Value)} {stack : List Value} {quick : Bool} {v x y : Value}
  {key : String} {i : UInt8} {op : Opcode}

lemma walk_succ (hl : lines[f.position]? = some l) (he : l.effect f h b = .ok e)
    (hg : e.goes? = some f') : f.walk lines h b (k + 1) = f'.walk lines h b k := by
  rw [walk, hl]
  simp only [he, hg]

lemma walk_const (hl : lines[p]? = some (.const v)) :
    walk lines h b (k + 1) ⟨u, g, locals, stack, p, quick⟩ =
      walk lines h b k ⟨u, g, locals, v :: stack, p + 1, quick⟩ :=
  walk_succ hl rfl rfl

lemma walk_loadFast (hl : lines[p]? = some (.op .loadFast i))
    (hv : locals[i.toNat]? = some (some v)) :
    walk lines h b (k + 1) ⟨u, g, locals, stack, p, quick⟩ =
      walk lines h b k ⟨u, g, locals, v :: stack, p + 1, quick⟩ :=
  walk_succ (e := .next ⟨u, g, locals, v :: stack, p, quick⟩) hl
    (by simp only [Line.effect, effect, hv, push]) rfl

lemma walk_storeFast (hl : lines[p]? = some (.op .storeFast i)) (hi : i.toNat < locals.size) :
    walk lines h b (k + 1) ⟨u, g, locals, v :: stack, p, quick⟩ =
      walk lines h b k
        ⟨u, g, locals.setIfInBounds i.toNat (some v), stack, p + 1, quick⟩ :=
  walk_succ hl (if_pos hi) rfl

lemma walk_dup (hl : lines[p]? = some (.op .dup i)) :
    walk lines h b (k + 1) ⟨u, g, locals, v :: stack, p, quick⟩ =
      walk lines h b k ⟨u, g, locals, v :: v :: stack, p + 1, quick⟩ :=
  walk_succ hl rfl rfl

lemma walk_compute {compute : Value → Value → Except Fault Value}
    (hl : lines[p]? = some (.op op i)) (hop : op.compute? = some compute)
    (hv : compute x y = .ok v) :
    walk lines h b (k + 1) ⟨u, g, locals, y :: x :: stack, p, quick⟩ =
      walk lines h b k ⟨u, g, locals, v :: stack, p + 1, quick⟩ := by
  cases op with
  | binaryAdd | binarySub | compareLt =>
    obtain rfl := Option.some.inj hop
    exact walk_succ (e := .next ⟨u, g, locals, v :: stack, p, quick⟩) hl
      (by simp only [Line.effect, effect, hv]) rfl
  | _ => cases hop

lemma walk_jump (hl : lines[p]? = some (.op .jump i)) :
    walk lines h b (k + 1) ⟨u, g, locals, stack, p, quick⟩ =
      walk lines h b k ⟨u, g, locals, stack, i.toNat, quick⟩ :=
  walk_succ hl rfl rfl

lemma walk_jumpIfFalse (hl : lines[p]? = some (.op .jumpIfFalse i)) :
    walk lines h b (k + 1) ⟨u, g, locals, v :: stack, p, quick⟩ =
      walk lines h b k
        ⟨u, g, locals, stack, if v.isTruthy then p + 1 else i.toNat, quick⟩ := by
  by_cases hv : v.isTruthy
  · rw [if_pos hv]
    exact walk_succ hl (if_pos hv) rfl
  · rw [if_neg hv]
    exact walk_succ hl (if_neg hv) rfl

lemma walk_loadGlobal (hl : lines[p]? = some (.name .loadGlobal key))
    (hv : Operation.loadGlobal (h.namespaceAt g.id) (h.namespaceAt b.id) key = .ok v) :
    walk lines h b (k + 1) ⟨u, g, locals, stack, p, quick⟩ =
      walk lines h b k ⟨u, g, locals, v :: stack, p + 1, quick⟩ :=
  walk_succ (e := .next ⟨u, g, locals, v :: stack, p, quick⟩) hl
    (by simp [Line.effect, effect, CodeUnit.name?, hv, push]) rfl

lemma walk_loadAttr (hl : lines[p]? = some (.name .loadAttr key))
    (hv : Operation.loadAttr h x key = .ok v) :
    walk lines h b (k + 1) ⟨u, g, locals, x :: stack, p, quick⟩ =
      walk lines h b k ⟨u, g, locals, v :: stack, p + 1, quick⟩ :=
  walk_succ (e := .next ⟨u, g, locals, v :: stack, p, quick⟩) hl
    (by simp [Line.effect, effect, CodeUnit.name?, hv]) rfl

end Frame

namespace Machine

variable {S : Machine → Machine → Prop} {E : Error → Prop} {Q : Machine → Prop} {h : Heap}
  {a : Array Attachment} {vm : Vm} {f f' : Frame} {rest : List Frame} {lines : List Line} {l : Line}
  {e : Effect} {t : Machine}

lemma step_line (hvm : vm.Plain) (hquick : f.quick = false)
    (hr : (h.unitAt f.unit).Renders lines) (hl : lines[f.position]? = some l)
    (he : l.effect f h vm.builtins = .ok e) :
    step ⟨h, a, vm, f :: rest⟩ = carryOut h a vm rest e := by
  obtain ⟨i, hi, hie⟩ := (hr.carries _ _ hl).effect he
  have hobserve : vm.observe (h.unitAt f.unit).name f.position i = vm := by
    rw [Vm.observe, hvm.unobserved]
    rfl
  rw [step_of_some hi, fetch_of_static (.inl hquick), execute_plain, hobserve, stepPlain, hie]

/-- One line, whatever it asks for. -/
lemma Leads.line (hvm : vm.Plain) (hquick : f.quick = false)
    (hr : (h.unitAt f.unit).Renders lines) (hl : lines[f.position]? = some l)
    (he : l.effect f h vm.builtins = .ok e) (hc : carryOut h a vm rest e = .running t)
    (hS : S ⟨h, a, vm, f :: rest⟩ t) (ht : Leads S E Q t) : Leads S E Q ⟨h, a, vm, f :: rest⟩ :=
  .step ((step_line hvm hquick hr hl he).trans hc) hS ht

lemma carryOut_goes (hvm : vm.Plain) (hg : e.goes? = some f') (hquick : f'.quick = false) :
    carryOut h a vm rest e = .running ⟨h, a, vm, f' :: rest⟩ := by
  cases e with
  | next f₁ =>
    obtain rfl := Option.some.inj hg
    rfl
  | jump f₁ target =>
    obtain rfl := Option.some.inj hg
    -- a jump back does not warm the unit up
    have hwarm : warmUp h a vm f₁.unit = (.ok false, a, vm) := if_pos hvm.mode
    have hquick' : f₁.quick = false := hquick
    show jump h a vm f₁ rest target = _
    rw [jump, hwarm]
    split
    · rw [← hquick']
    · rfl
  | _ => cases hg

/-- A block of lines that concern only their own frame. -/
lemma Leads.walk (hvm : vm.Plain) (hquick : f.quick = false) (hr : (h.unitAt f.unit).Renders lines)
    (hS : ∀ f₁ f₂ : Frame, f₁.unit = f.unit → f₂.unit = f.unit →
      (∀ arg, lines[f₁.position]? ≠ some (.op .call arg)) →
        S ⟨h, a, vm, f₁ :: rest⟩ ⟨h, a, vm, f₂ :: rest⟩)
    {k : Nat} (hw : f.walk lines h vm.builtins k = some f')
    (ht : Leads S E Q ⟨h, a, vm, f' :: rest⟩) : Leads S E Q ⟨h, a, vm, f :: rest⟩ := by
  induction k generalizing f with
  | zero =>
    obtain rfl := Option.some.inj hw
    exact ht
  | succ k ih =>
    rw [Frame.walk] at hw
    split at hw
    · cases hw
    next l hl =>
    split at hw
    · cases hw
    next e he =>
    split at hw
    · cases hw
    next f₁ hg =>
    obtain ⟨hunit, hquick₁⟩ := l.effect_goes he hg
    have hquick₁ : f₁.quick = false := hquick₁.trans hquick
    have hcall (arg : UInt8) : lines[f.position]? ≠ some (.op .call arg) := by
      rw [hl]
      exact fun hc => l.ne_call_of_goes he hg arg (Option.some.inj hc)
    refine .line hvm hquick hr hl he (carryOut_goes hvm hg hquick₁) (hS f f₁ rfl hunit hcall) ?_
    refine ih hquick₁ (hunit ▸ hr) (fun f₂ f₃ h₂ h₃ hc => ?_) hw
    exact hS f₂ f₃ (h₂.trans hunit) (h₃.trans hunit) hc

/-! ### Calls -/

lemma enter_plain (hvm : vm.Plain) (hd : ¬ vm.config.maxFrameDepth ≤ vm.depth) (u : Nat)
    (g : Ref .mod) (locals : Array (Option Value)) :
    enter ⟨h, a, vm, rest⟩ u g locals =
      .running (standing a { vm with depth := vm.depth + 1 } rest u g h locals 0) :=
  enter_of_ok (m := ⟨h, a, vm, rest⟩) hd (if_pos hvm.mode) g locals

variable {r : Ref .function} {fn : Function} {args below : List Value} {argc : UInt8}

/-- A call of a function with as many arguments as it has parameters. -/
lemma step_callFunction (hvm : vm.Plain) (hquick : f.quick = false)
    (hr : (h.unitAt f.unit).Renders lines) (hl : lines[f.position]? = some (.op .call argc))
    (hpop : f.popMany? argc.toNat = some (args, .function r :: below)) (hfn : h.functionAt r = fn)
    (hargc : (h.unitAt fn.unit).argcount = argc) :
    step ⟨h, a, vm, f :: rest⟩ =
      enter ⟨h, a, vm, { f with stack := below } :: rest⟩ fn.unit fn.globals
        (Binding.slots (h.unitAt fn.unit).nlocals.toNat args) := by
  subst hfn
  have he : (Line.op .call argc).effect f h vm.builtins =
      .ok (.call { f with stack := below } (.function r) args) := by
    simp only [Line.effect, Frame.effect, hpop]
  rw [step_line hvm hquick hr hl he]
  refine call_function_exact ⟨h, a, vm, { f with stack := below } :: rest⟩ r ?_
  rw [length_of_popMany? hpop, hargc]

/-- A call leads where its callee leads, unless there is no room for another frame. -/
lemma Leads.callFunction (hvm : vm.Plain) (hquick : f.quick = false)
    (hr : (h.unitAt f.unit).Renders lines) (hl : lines[f.position]? = some (.op .call argc))
    (hpop : f.popMany? argc.toNat = some (args, .function r :: below)) (hfn : h.functionAt r = fn)
    (hargc : (h.unitAt fn.unit).argcount = argc)
    (hfull : vm.config.maxFrameDepth ≤ vm.depth →
      E (.limit (.depth (vm.depth + 1) vm.config.maxFrameDepth)))
    (hS : S ⟨h, a, vm, f :: rest⟩
      (standing a { vm with depth := vm.depth + 1 } ({ f with stack := below } :: rest) fn.unit
        fn.globals h (Binding.slots (h.unitAt fn.unit).nlocals.toNat args) 0))
    (ht : ¬ vm.config.maxFrameDepth ≤ vm.depth →
      Leads S E Q (standing a { vm with depth := vm.depth + 1 } ({ f with stack := below } :: rest)
        fn.unit fn.globals h (Binding.slots (h.unitAt fn.unit).nlocals.toNat args) 0)) :
    Leads S E Q ⟨h, a, vm, f :: rest⟩ := by
  have hstep : Machine.step ⟨h, a, vm, f :: rest⟩ = _ :=
    step_callFunction hvm hquick hr hl hpop hfn hargc
  by_cases hd : vm.config.maxFrameDepth ≤ vm.depth
  · rw [enter_of_le (m := ⟨h, a, vm, { f with stack := below } :: rest⟩) hd] at hstep
    exact .stop hstep (hfull hd)
  · rw [enter_plain hvm hd] at hstep
    exact .step hstep hS (ht hd)

/-- A return hands its value to the caller, which goes on. -/
lemma Leads.ret {v : Value} {stack : List Value} {caller : Frame} {i : UInt8} {depth : Nat}
    (hvm : vm.Plain) (hquick : f.quick = false) (hr : (h.unitAt f.unit).Renders lines)
    (hl : lines[f.position]? = some (.op .ret i)) (hstack : f.stack = v :: stack)
    (hS : S ⟨h, a, { vm with depth := depth + 1 }, f :: caller :: rest⟩
      ⟨h, a, { vm with depth }, (caller.push v).advance :: rest⟩)
    (ht : Leads S E Q ⟨h, a, { vm with depth }, (caller.push v).advance :: rest⟩) :
    Leads S E Q ⟨h, a, { vm with depth := depth + 1 }, f :: caller :: rest⟩ := by
  have he : (Line.op .ret i).effect f h vm.builtins = .ok (.leave v) := by
    simp only [Line.effect, Frame.effect, hstack]
  exact .line (hvm.deeper _) hquick hr hl he rfl hS ht

end Machine

end AdaptiveVM
