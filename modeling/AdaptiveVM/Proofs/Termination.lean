import AdaptiveVM.Proofs.Confinement
import AdaptiveVM.Proofs.Depth

/-!
Programs that jump forward only come to an end.

Functions may call one another and themselves without an end in sight, and may bind the names they
are called by to other functions. But a frame whose jumps lead forward moves on in its unit with
every instruction, and there is room for so many frames only. So what is left to do can be told in
steps: an instruction takes one step, and as many in addition as a whole frame takes if there is
room for one more. A frame that waits has done with the instruction it waits for as soon as the
answer comes. Whatever a step does, less is left to do after it.
-/

namespace AdaptiveVM

/-- All jumps of the unit lead forward. -/
def CodeUnit.ForwardOnly (u : CodeUnit) : Prop :=
  ∀ p i, u.instr? p = some i → i.op.isJump = true → p < i.arg.toNat

instance (u : CodeUnit) : Decidable u.ForwardOnly :=
  decidable_of_iff
    (∀ p : Fin u.instrs.size, u.instrs[p].op.isJump = true → p.val < u.instrs[p].arg.toNat) <| by
      constructor
      · intro hall p i hi hjump
        obtain ⟨hp, rfl⟩ := Array.getElem?_eq_some_iff.mp hi
        exact hall ⟨p, hp⟩ hjump
      · exact fun hall p => hall p _ (Array.getElem?_eq_getElem p.isLt)

lemma CodeUnit.Follows.lt {u : CodeUnit} {p p' : Nat} (hf : u.Follows p p') (hu : u.ForwardOnly) :
    p < u.size ∧ p < p' := by
  obtain ⟨i, hi, hp'⟩ := hf
  refine ⟨(Array.getElem?_eq_some_iff.mp hi).1, ?_⟩
  rcases hp' with rfl | ⟨hjump, rfl⟩
  · exact Nat.lt_succ_self p
  · exact hu p i hi hjump

def Heap.longest (h : Heap) : Nat := (h.units.toList.map CodeUnit.size).foldr max 0

lemma Heap.size_unitAt_le (h : Heap) (u : Nat) : (h.unitAt u).size ≤ h.longest := by
  by_cases hu : u < h.units.size
  · have hmem : (h.unitAt u).size ∈ h.units.toList.map CodeUnit.size := by
      refine List.mem_map.mpr ⟨h.units[u], Array.mem_toList_iff.mpr (Array.getElem_mem hu), ?_⟩
      rw [unitAt, Array.getD_eq_getD_getElem?, Array.getElem?_eq_getElem hu, Option.getD_some]
    exact List.le_max_of_le hmem le_rfl
  · rw [unitAt, getD_of_size_le (Nat.not_lt.mp hu)]
    exact Nat.zero_le _

/-! ### What is left to do -/

/-- How many steps an instruction may take with all that it calls, where no unit is longer than
`length` and there is room for so many frames more. -/
def allowance (length : Nat) : Nat → Nat
  | 0 => 1
  | room + 1 => length * allowance length room + 2

lemma allowance_pos (length room : Nat) : 0 < allowance length room := by
  cases room with
  | zero => exact Nat.one_pos
  | succ room => exact Nat.succ_pos _

/-- How many instructions of its unit lie ahead of a frame. -/
def Frame.ahead (code : Nat → CodeUnit) (f : Frame) : Nat := (code f.unit).size - f.position

section

variable (code : Nat → CodeUnit) (length : Nat)

/-- What frames that wait for an answer have left to do, if there is room for so many frames more
when it has come. -/
def waiting : Nat → List Frame → Nat
  | _, [] => 0
  | room, f :: outer =>
    (f.ahead code - 1) * allowance length room + 1 + waiting (room + 1) outer

/-- What frames have left to do, with room for so many more. -/
def due (room : Nat) : List Frame → Nat
  | [] => 0
  | f :: outer => f.ahead code * allowance length room + 1 + waiting code length (room + 1) outer

end

def Progress.due (length : Nat) : Progress → Nat
  | .running m =>
    AdaptiveVM.due m.heap.unitAt length (m.vm.config.maxFrameDepth - m.vm.depth) m.frames
  | _ => 0

section

variable {code : Nat → CodeUnit} {length room : Nat} {f f' g : Frame} {outer : List Frame}

lemma due_moved (hahead : f'.ahead code < f.ahead code) :
    due code length room (f' :: outer) < due code length room (f :: outer) := by
  have hmul := Nat.mul_lt_mul_of_pos_right hahead (allowance_pos length room)
  simp only [due]
  omega

lemma due_called (hg : g.ahead code ≤ length) (hf : 0 < f.ahead code)
    (hf' : f'.ahead code = f.ahead code) :
    due code length room (g :: f' :: outer) < due code length (room + 1) (f :: outer) := by
  have hcallee := Nat.mul_le_mul_right (allowance length room) hg
  have hcaller : f.ahead code * allowance length (room + 1) =
      (f.ahead code - 1) * allowance length (room + 1) + (length * allowance length room + 2) := by
    obtain ⟨k, hk⟩ := Nat.exists_eq_add_one_of_ne_zero hf.ne'
    rw [hk, Nat.add_sub_cancel, Nat.succ_mul]
    rfl
  simp only [due, waiting, hf', hcaller]
  omega

lemma due_left (v : Value) :
    due code length (room + 1) ((g.push v).advance :: outer) <
      due code length room (f :: g :: outer) := by
  have hahead : (g.push v).advance.ahead code = g.ahead code - 1 := (Nat.sub_sub ..).symm
  simp only [due, waiting, hahead]
  omega

lemma due_pos : 0 < due code length room (f :: outer) := by
  simp only [due]
  omega

end

lemma Machine.unitAt_step (m : Machine) (hw : World.Sound ⟨m.heap, m.attachments⟩) :
    m.step.machine.heap.unitAt = m.heap.unitAt := by
  funext u
  rw [Heap.unitAt, m.units_step hw, Heap.unitAt]

namespace Progress

variable {base limit length : Nat} {p : Progress} {m : Machine} {vm : Vm}

/-- One step of the innermost frame, with others around it. -/
lemma Moves.due_lt {h : Heap} {f : Frame} {outer : List Frame} (hp : p.Moves (h.unitAt f.unit) f vm)
    (hcode : p.machine.heap.unitAt = h.unitAt) (hconfig : p.machine.vm.config = vm.config)
    (hforward : (h.unitAt f.unit).ForwardOnly) (hlength : ∀ u, (h.unitAt u).size ≤ length)
    (hdepth : 0 < vm.depth) (hbound : vm.depth ≤ vm.config.maxFrameDepth) :
    (p.onto outer).due length <
      AdaptiveVM.due h.unitAt length (vm.config.maxFrameDepth - vm.depth) (f :: outer) := by
  have hsame {h' : Heap} {a : Array Attachment} {vm' : Vm} (frames : List Frame) (room : Nat)
      (hcode : h'.unitAt = h.unitAt) (hroom : vm'.config.maxFrameDepth - vm'.depth = room) :
      (Progress.running ⟨h', a, vm', frames⟩).due length =
        AdaptiveVM.due h.unitAt length room frames := by
    rw [Progress.due, hcode, hroom]
  cases hp with
  | @goes m f' frames unit position depth =>
    obtain ⟨h', a, vm', frames'⟩ := m
    cases frames
    have hroom : vm'.config.maxFrameDepth - vm'.depth = vm.config.maxFrameDepth - vm.depth := by
      rw [show vm'.config = vm.config from hconfig, show vm'.depth = vm.depth from depth]
    obtain ⟨hhere, hon⟩ := position.lt hforward
    refine (hsame (f' :: outer) _ hcode hroom).trans_lt (due_moved ?_)
    rw [Frame.ahead, Frame.ahead, unit]
    omega
  | @calls m g f' frames unit position here first room depth =>
    obtain ⟨h', a, vm', frames'⟩ := m
    cases frames
    obtain ⟨room', hroom'⟩ := Nat.exists_eq_add_of_lt room
    have hroom : vm'.config.maxFrameDepth - vm'.depth = room' := by
      rw [show vm'.config = vm.config from hconfig, show vm'.depth = vm.depth + 1 from depth]
      omega
    have hmore : vm.config.maxFrameDepth - vm.depth = room' + 1 := by omega
    rw [hmore]
    refine (hsame (g :: f' :: outer) _ hcode hroom).trans_lt (due_called ?_ ?_ ?_)
    · exact (Nat.sub_le ..).trans (hlength g.unit)
    · exact Nat.sub_pos_of_lt here
    · rw [Frame.ahead, Frame.ahead, unit, position]
  | @leaves m v frames depth =>
    obtain ⟨h', a, vm', frames'⟩ := m
    cases outer with
    | nil => exact due_pos
    | cons g outer =>
      have hroom : vm'.config.maxFrameDepth - vm'.depth =
          vm.config.maxFrameDepth - vm.depth + 1 := by
        rw [show vm'.config = vm.config from hconfig, show vm'.depth = vm.depth - 1 from depth]
        omega
      exact (hsame ((g.push v).advance :: outer) _ hcode hroom).trans_lt (due_left v)
  | @fails m e frames depth => exact due_pos

/-- **Whatever a step does, less is left to do after it.** -/
theorem due_step (hw : World.Sound ⟨m.heap, m.attachments⟩)
    (hm : (Progress.running m).Counts base limit)
    (hforward : ∀ f ∈ m.frames, (m.heap.unitAt f.unit).ForwardOnly)
    (hlength : ∀ u, (m.heap.unitAt u).size ≤ length) :
    m.step.due length < (Progress.running m).due length := by
  obtain ⟨h, a, vm, _ | ⟨f, outer⟩⟩ := m
  · cases hm.running
  obtain rfl : vm.config.maxFrameDepth = limit := hm.config
  have hdepth : vm.depth = base + (outer.length + 1) := hm.depth
  have hcode := Machine.unitAt_step ⟨h, a, vm, [f]⟩ hw
  have hstep := Machine.step_onto h a vm [] outer f
  rw [List.singleton_append] at hstep
  rw [hstep]
  exact (Machine.step_moves vm f hw).due_lt hcode (Machine.config_step ⟨h, a, vm, [f]⟩ hw)
    (hforward f List.mem_cons_self) hlength (by omega) hm.bounded

/-- **An execution that never leaves code that jumps forward comes to an end**, and in no more steps
than it has left to do. -/
theorem ends_of_forward (n : Nat) (hw : World.Sound ⟨p.machine.heap, p.machine.attachments⟩)
    (hp : p.Counts base limit)
    (hforward : ∀ k, ∀ f ∈ (p.advance k).machine.frames,
      ((p.advance k).machine.heap.unitAt f.unit).ForwardOnly)
    (hlength : ∀ u, (p.machine.heap.unitAt u).size ≤ length) (hn : p.due length ≤ n) :
    ∃ ending, p.run n = some ending := by
  induction n generalizing p with
  | zero =>
    cases p with
    | running m =>
      obtain ⟨h, a, vm, _ | ⟨f, outer⟩⟩ := m
      · cases hp.running
      · exact absurd hn (Nat.not_le.mpr due_pos)
    | returned m v => exact ⟨_, rfl⟩
    | failed m e => exact ⟨_, rfl⟩
  | succ n ih =>
    cases p with
    | running m =>
      have hless : m.step.due length < (Progress.running m).due length :=
        due_step hw hp (hforward 0) hlength
      refine ih hw.step (hp.step hw) (fun k => hforward (k + 1)) (fun u => ?_) (by omega)
      rw [m.unitAt_step hw]
      exact hlength u
    | returned m v => exact ⟨_, rfl⟩
    | failed m e => exact ⟨_, rfl⟩

lemma Enters.due_le {length : Nat} (hp : p.Enters vm) (hconfig : p.machine.vm.config = vm.config)
    (hlength : ∀ u, (p.machine.heap.unitAt u).size ≤ length) :
    p.due length ≤ allowance length (vm.config.maxFrameDepth - vm.depth) := by
  cases hp with
  | @enters m g frames position room depth =>
    obtain ⟨h, a, vm', frames'⟩ := m
    cases frames
    obtain ⟨room', hroom'⟩ := Nat.exists_eq_add_of_lt room
    have hroom : vm'.config.maxFrameDepth - vm'.depth = room' := by
      rw [show vm'.config = vm.config from hconfig, show vm'.depth = vm.depth + 1 from depth]
      omega
    have hmore : vm.config.maxFrameDepth - vm.depth = room' + 1 := by omega
    have hahead : g.ahead h.unitAt ≤ length := (Nat.sub_le ..).trans (hlength g.unit)
    have hmul := Nat.mul_le_mul_right (allowance length room') hahead
    rw [hmore, Progress.due, hroom]
    simp only [AdaptiveVM.due, waiting, allowance]
    omega
  | returns v frames depth => exact Nat.zero_le _
  | fails e frames depth => exact Nat.zero_le _

end Progress

namespace Process

/-- **Programs that jump forward only come to an end.** Let every unit that an execution can enter
have no jumps but forward ones. Then the execution ends, with a value or an error, in no more steps
than the room for frames and the length of units allow for. -/
theorem forward_programs_end (as : List Action) {v : Nat} {x : Vm} (i : Invocation)
    (hx : (({} : Process).after as).vms[v]? = some x)
    (hforward : ∀ u, i.CanEnter (({} : Process).after as).world.heap x.builtins u →
      ((({} : Process).after as).world.heap.unitAt u).ForwardOnly) :
    let w := (({} : Process).after as).world
    ∃ ending, (i.start w x).run
      (allowance w.heap.longest (x.config.maxFrameDepth - x.depth)) = some ending := by
  have hw : (({} : Process).after as).world.Sound := after_sound World.sound_empty as
  have hp : (({} : Process).after as).Counts := Counts.empty.after World.sound_empty as
  generalize ({} : Process).after as = p at hw hp hx hforward
  intro w
  have hstart := i.start_quiet w x
  have hsound := hw.quiet hstart
  have hlength (u : Nat) : ((i.start w x).machine.heap.unitAt u).size ≤ w.heap.longest := by
    rw [Heap.unitAt, hstart.heap.units]
    exact w.heap.size_unitAt_le u
  refine Progress.ends_of_forward _ hsound (hp.invoke hx i) (fun k f hf => ?_) hlength
    ((Machine.start_enters w x i).due_le hstart.vm.config hlength)
  -- what is entered could be told from the start
  have hconfined := (i.start_confined w x).advance k hsound hstart.vm.builtins
  rw [Heap.unitAt, hconfined.heap.units]
  exact hforward f.unit (hconfined.frames f hf).unit

/-- Two functions call each other, until one binds the name of the other to itself. Beside them is
code that does not end, which no function has. -/
def chasing : List Action :=
  [.newVm { maxFrameDepth := 3, warmupThreshold := 1, specializeThreshold := 2 },
   .request (.newModule "main"),
   .addUnit
    { name := "ping"
      instrs := #[⟨.jump, 2⟩, ⟨.nop, 0⟩, ⟨.loadGlobal, 0⟩, ⟨.call, 0⟩, ⟨.ret, 0⟩]
      names := #["pong"] },
   .addUnit
    { name := "pong"
      instrs := #[⟨.loadGlobal, 0⟩, ⟨.dup, 0⟩, ⟨.storeGlobal, 1⟩, ⟨.call, 0⟩, ⟨.ret, 0⟩]
      names := #["ping", "pong"] },
   .addUnit { name := "spin", instrs := #[⟨.jump, 0⟩] },
   .request (.newFunction 0 ⟨1, "main"⟩ []),
   .request (.newFunction 1 ⟨1, "main"⟩ []),
   .request (.assign 1 "ping" (.function ⟨0, "ping"⟩)),
   .request (.assign 1 "pong" (.function ⟨1, "pong"⟩))]

theorem forward_programs_end_chasing :
    let p := ({} : Process).after chasing
    let i : Invocation := .call (.function ⟨0, "ping"⟩) []
    ¬ (p.world.heap.unitAt 2).ForwardOnly ∧
      (∀ u, i.CanEnter p.world.heap (p.vmAt 0).builtins u → (p.world.heap.unitAt u).ForwardOnly) ∧
      ∃ ending, (i.start p.world (p.vmAt 0)).run 187 = some ending ∧
        ending.result.toOption.isNone = true := by
  intro p i
  have hsome : p.vms[0]?.isSome = true := by decide +kernel
  obtain ⟨x, hx⟩ := Option.isSome_iff_exists.mp hsome
  have hat : p.vmAt 0 = x := vmAt_of_getElem? hx
  have hunits : ∀ f ∈ p.world.heap.functions.toList, f.unit < 2 := by decide +kernel
  have hcode : ∀ u < 2, (p.world.heap.unitAt u).ForwardOnly := by decide +kernel
  have hforward (u : Nat) (hu : i.CanEnter p.world.heap x.builtins u) :
      (p.world.heap.unitAt u).ForwardOnly := by
    rcases hu with ⟨globals, hrun⟩ | ⟨f, -, rfl⟩
    · cases (show Invocation.call _ _ = .run u globals from hrun)
    · refine hcode _ ?_
      by_cases hf : f.id < p.world.heap.functions.size
      · rw [Heap.functionAt, Array.getD_eq_getD_getElem?, Array.getElem?_eq_getElem hf]
        exact hunits _ (Array.mem_toList_iff.mpr (Array.getElem_mem hf))
      · rw [Heap.functionAt, getD_of_size_le (Nat.not_lt.mp hf)]
        exact Nat.two_pos
  have hbound : allowance p.world.heap.longest
      ((p.vmAt 0).config.maxFrameDepth - (p.vmAt 0).depth) = 187 := by decide +kernel
  have hfails : ((i.start p.world (p.vmAt 0)).run 187).all
      (fun ending => ending.result.toOption.isNone) = true := by decide +kernel
  obtain ⟨ending, hending⟩ := forward_programs_end chasing i hx hforward
  rw [hat] at hbound hfails ⊢
  rw [hbound] at hending
  rw [hending] at hfails
  exact ⟨by decide +kernel, hforward, ending, hending, hfails⟩

end Process

end AdaptiveVM
