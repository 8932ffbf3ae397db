import AdaptiveVM.Machine.Step
import Mathlib

/-!
Machines and what they would be if they traced.

A machine that traces has the same heap and the same frames, but its frames read static streams, and
its attachments and counts may be any. Every part of a step that is not about sites goes the same
way for both, unless quickening a unit fails for want of memory.
-/

namespace AdaptiveVM

/-- The error of a unit that could not be quickened. -/
def Error.isMemoryLimit : Error → Bool
  | .limit (.memory ..) | .limit (.allocation _) => true
  | _ => false

def Frame.traced (f : Frame) : Frame := { f with quick := false }

/-- The interpreter, tracing, with other counts. -/
def Vm.traced (vm : Vm) (s : Stats) : Vm := { vm.setMode .tracing with stats := s }

def Effect.traced : Effect → Effect
  | .next f => .next f.traced
  | .jump f target => .jump f.traced target
  | .assign f key value => .assign f.traced key value
  | .store f receiver key value => .store f.traced receiver key value
  | .call f callee args => .call f.traced callee args
  | .leave value => .leave value

/-- The machine, tracing, with other attachments and counts. -/
def Machine.traced (m : Machine) (a : Array Attachment) (s : Stats) : Machine :=
  ⟨m.heap, a, m.vm.traced s, m.frames.map Frame.traced⟩

namespace Progress

def traced (p : Progress) (a : Array Attachment) (s : Stats) : Progress :=
  match p with
  | .running m => .running (m.traced a s)
  | .returned m v => .returned (m.traced a s) v
  | .failed m e => .failed (m.traced a s) e

/-- The execution has ended for want of memory. -/
def OutOfMemory : Progress → Prop
  | .failed _ e => e.isMemoryLimit = true
  | _ => False

/-- A way of going on that tracing takes too, unless memory has run out. -/
def Traces (p : Progress) (a : Array Attachment) (s : Stats) (p' : Progress) : Prop :=
  p.OutOfMemory ∨ p.traced a s = p'

end Progress

/-- The interpreter adapts, and some code takes more bytes in its quickened form than it allows. -/
def Config.Starves (c : Config) (code : Array Instr) : Prop :=
  c.mode = .adaptive ∧ c.memoryLimit < Quickened.footprint code.size (Quickened.layout code).2

/-- A way of going on that tracing takes too, unless tracing goes on in a unit that there is not
the memory to quicken. -/
inductive Progress.Shadows (p : Progress) (c : Config) (a : Array Attachment) (s : Stats) :
    Progress → Prop where
  | same {p' : Progress} (eq : p.traced a s = p') : Shadows p c a s p'
  | starved {m m' : Machine} {requested limit : Nat} {f : Frame} {rest : List Frame}
      (failed : p = .failed m (.limit (.memory requested limit))) (frames : m'.frames = f :: rest)
      (code : c.Starves (m'.heap.unitAt f.unit).instrs) : Shadows p c a s (.running m')

lemma Progress.Shadows.traces {p p' : Progress} {c : Config} {a : Array Attachment} {s : Stats}
    (h : p.Shadows c a s p') : p.Traces a s p' := by
  cases h with
  | same eq => exact .inr eq
  | starved failed =>
    rw [failed]
    exact .inl rfl

namespace Machine

variable {a' : Array Attachment} {s : Stats}

/-! ### Ends -/

lemma deliver_traced (m : Machine) (v : Value) :
    (m.deliver v).traced a' s = (m.traced a' s).deliver v := by
  obtain ⟨h, a, vm, _ | ⟨f, rest⟩⟩ := m
  · rfl
  · rfl

lemma fail_traced (m : Machine) (e : Error) :
    (m.fail e).traced a' s = (m.traced a' s).fail e := by
  obtain ⟨h, a, vm, frames⟩ := m
  have hlines : (frames.map Frame.traced).map (Frame.traceFrame h) =
      frames.map (Frame.traceFrame h) := by
    rw [List.map_map]
    rfl
  simp only [fail, Progress.traced, traced, hlines, List.length_map]
  rfl

lemma leave_traced (h : Heap) (a : Array Attachment) (vm : Vm) (rest : List Frame) (v : Value) :
    (leave h a vm rest v).traced a' s =
      leave h a' (vm.traced s) (rest.map Frame.traced) v :=
  deliver_traced _ v

/-! ### Calls -/

lemma answer_traced (m : Machine) (b : Ref .builtin) (r : Except Error Value) :
    (m.answer b r).traced a' s = (m.traced a' s).answer b r := by
  cases r with
  | ok v => exact deliver_traced m v
  | error e => exact fail_traced m _

lemma callBuiltin_traced (m : Machine) (b : Ref .builtin) (args : List Value) :
    (m.callBuiltin b args).traced a' s = (m.traced a' s).callBuiltin b args :=
  answer_traced ⟨(m.heap.invoke b args).2, m.attachments, m.vm, m.frames⟩ b _

lemma construct_traced (m : Machine) (c : Ref .cls) :
    (m.construct c).traced a' s = (m.traced a' s).construct c :=
  deliver_traced ⟨(m.heap.instantiate c).2, m.attachments, m.vm, m.frames⟩ _

/-- A warm-up tick changes nothing that tracing knows of, or fails for want of memory. -/
lemma warmUp_cases (h : Heap) (a : Array Attachment) (vm : Vm) (u : Nat) (s : Stats) :
    (∃ quick a₁ vm₁, warmUp h a vm u = (.ok quick, a₁, vm₁) ∧ vm₁.traced s = vm.traced s) ∨
      vm.config.Starves (h.unitAt u).instrs ∧ ∃ requested limit a₁ vm₁,
        warmUp h a vm u = (.error (.limit (.memory requested limit)), a₁, vm₁) := by
  unfold warmUp
  split
  · exact .inl ⟨_, _, _, rfl, rfl⟩
  · next hmode =>
    split
    · exact .inl ⟨_, _, _, rfl, rfl⟩
    · dsimp only
      split
      · exact .inl ⟨_, _, _, rfl, rfl⟩
      · unfold Quickened.quicken
        dsimp only
        split
        · exact .inl ⟨_, _, _, rfl, rfl⟩
        · next hlimit =>
          split at hlimit
          · next hlt =>
            cases hlimit
            have hadapts : vm.config.mode = .adaptive := by
              cases hm : vm.config.mode with
              | adaptive => rfl
              | tracing => exact absurd hm hmode
            exact .inr ⟨⟨hadapts, hlt⟩, _, _, _, _, rfl⟩
          · cases hlimit

lemma warmUp_tracing (h : Heap) (a : Array Attachment) (vm : Vm) (s : Stats) (u : Nat) :
    warmUp h a (vm.traced s) u = (.ok false, a, vm.traced s) :=
  rfl

/-- Entering a frame where there is no room for one. -/
lemma enter_of_le {m : Machine} (hd : m.vm.config.maxFrameDepth ≤ m.vm.depth) (u : Nat)
    (globals : Ref .mod) (locals : Array (Option Value)) :
    m.enter u globals locals =
      m.fail (.limit (.depth (m.vm.depth + 1) m.vm.config.maxFrameDepth)) :=
  if_pos hd

/-- Entering a frame where there is room, and the warm-up tick goes well. -/
lemma enter_of_ok {m : Machine} (hd : ¬ m.vm.config.maxFrameDepth ≤ m.vm.depth) {u : Nat}
    {quick : Bool} {a : Array Attachment} {vm : Vm}
    (hw : warmUp m.heap m.attachments m.vm u = (.ok quick, a, vm)) (globals : Ref .mod)
    (locals : Array (Option Value)) :
    m.enter u globals locals =
      .running ⟨m.heap, a, { vm with depth := vm.depth + 1 },
        { unit := u, globals, locals, quick } :: m.frames⟩ := by
  refine (if_neg hd).trans ?_
  rw [hw]

lemma enter_of_error {m : Machine} (hd : ¬ m.vm.config.maxFrameDepth ≤ m.vm.depth) {u : Nat}
    {e : Error} {a : Array Attachment} {vm : Vm}
    (hw : warmUp m.heap m.attachments m.vm u = (.error e, a, vm)) (globals : Ref .mod)
    (locals : Array (Option Value)) :
    m.enter u globals locals = fail ⟨m.heap, a, vm, m.frames⟩ e := by
  refine (if_neg hd).trans ?_
  rw [hw]

lemma enter_shadows (m : Machine) (u : Nat) (globals : Ref .mod) (locals : Array (Option Value)) :
    (m.enter u globals locals).Shadows m.vm.config a' s
      ((m.traced a' s).enter u globals locals) := by
  by_cases hd : m.vm.config.maxFrameDepth ≤ m.vm.depth
  · rw [enter_of_le hd, enter_of_le (m := m.traced a' s) hd]
    exact .same (fail_traced m _)
  · rcases warmUp_cases m.heap m.attachments m.vm u s with
      ⟨quick, a, vm, hw, hvm⟩ | ⟨hstarves, _, _, a, vm, hw⟩
    · rw [enter_of_ok hd hw, enter_of_ok (m := m.traced a' s) hd (warmUp_tracing ..)]
      refine .same ?_
      have hdeep : Vm.traced { vm with depth := vm.depth + 1 } s =
          { vm.traced s with depth := (vm.traced s).depth + 1 } :=
        rfl
      rw [Progress.traced, traced, hdeep, hvm]
      rfl
    · rw [enter_of_error hd hw, enter_of_ok (m := m.traced a' s) hd (warmUp_tracing ..)]
      exact .starved rfl rfl hstarves

lemma call_shadows (m : Machine) (callee : Value) (args : List Value) :
    (m.call callee args).Shadows m.vm.config a' s ((m.traced a' s).call callee args) := by
  unfold call
  split
  · dsimp only [traced]
    split
    · exact enter_shadows m _ _ _
    · exact .same (fail_traced m _)
  · exact .same (callBuiltin_traced m _ args)
  · split
    · exact .same (construct_traced m _)
    · exact .same (fail_traced m _)
  · exact .same (fail_traced m _)

/-! ### Static instructions -/

lemma jump_shadows (h : Heap) (a : Array Attachment) (vm : Vm) (f : Frame) (rest : List Frame)
    (target : Nat) :
    (jump h a vm f rest target).Shadows vm.config a' s
      (jump h a' (vm.traced s) f.traced (rest.map Frame.traced) target) := by
  have htraced : jump h a' (vm.traced s) f.traced (rest.map Frame.traced) target =
      .running ⟨h, a', vm.traced s,
        { f.traced with position := target } :: rest.map Frame.traced⟩ := by
    unfold jump
    rw [warmUp_tracing]
    split
    · rfl
    · rfl
  rw [htraced]
  unfold jump
  split
  · rcases warmUp_cases h a vm f.unit s with
      ⟨quick, a₁, vm₁, hw, hvm⟩ | ⟨hstarves, _, _, a₁, vm₁, hw⟩
    · rw [hw]
      refine .same ?_
      rw [Progress.traced, traced, hvm]
      rfl
    · rw [hw]
      exact .starved rfl rfl hstarves
  · exact .same rfl

lemma carryOut_shadows (h : Heap) (a : Array Attachment) (vm : Vm) (rest : List Frame)
    (e : Effect) :
    (carryOut h a vm rest e).Shadows vm.config a' s
      (carryOut h a' (vm.traced s) (rest.map Frame.traced) e.traced) := by
  cases e with
  | next f => exact .same rfl
  | jump f target => exact jump_shadows h a vm f rest target
  | assign f key value => exact .same rfl
  | store f receiver key value => exact .same rfl
  | call f callee args => exact call_shadows ⟨h, a, vm, f :: rest⟩ callee args
  | leave value => exact .same (leave_traced h a vm rest value)

end Machine

/-- What an instruction asks for does not depend on the stream its frame reads. -/
lemma Frame.effect_traced (f : Frame) (h : Heap) (builtins : Ref .mod) (u : CodeUnit) (op : Opcode)
    (arg : UInt8) :
    f.traced.effect h builtins u op arg = (f.effect h builtins u op arg).map Effect.traced := by
  cases op with
  | call =>
    have hpop : f.traced.popMany? arg.toNat = f.popMany? arg.toNat := rfl
    rcases hp : f.popMany? arg.toNat with _ | ⟨args, _ | ⟨callee, rest⟩⟩
    all_goals
      rw [hp] at hpop
      simp only [effect, hp, hpop]
      rfl
  | _ =>
    -- the same branches on both sides
    dsimp only [effect, traced]
    repeat' split
    all_goals rfl

namespace Machine

lemma stepPlain_shadows (h : Heap) (a a' : Array Attachment) (vm : Vm) (s : Stats) (f : Frame)
    (rest : List Frame) (u : CodeUnit) (op : Opcode) (arg : UInt8) :
    (stepPlain h a vm f rest u op arg).Shadows vm.config a' s
      (stepPlain h a' (vm.traced s) f.traced (rest.map Frame.traced) u op arg) := by
  have heffect := f.effect_traced h vm.builtins u op arg
  have hbuiltins : (vm.traced s).builtins = vm.builtins := rfl
  unfold stepPlain
  rw [hbuiltins, heffect]
  rcases f.effect h vm.builtins u op arg with e | effect
  · exact .same (fail_traced ⟨h, a, vm, f :: rest⟩ e)
  · exact carryOut_shadows h a vm rest effect

lemma observe_traced (vm : Vm) (s : Stats) (unit : String) (position : Nat) (i : Instr) :
    (vm.observe unit position i).traced s = (vm.traced s).observe unit position i := by
  rcases vm with ⟨config, builtins, stats, depth, observed, events⟩
  cases observed with
  | false => rfl
  | true => rfl

end Machine

end AdaptiveVM
