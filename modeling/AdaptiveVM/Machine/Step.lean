import AdaptiveVM.Machine.Adaptive

/-!
One step of the machine, and whole executions.

A step executes one instruction of the innermost frame, from the quickened stream if the frame
reads it; a frame that has run past its last instruction returns the absent value. An execution
may go on for ever, so it is run for a number of steps.
-/

namespace AdaptiveVM.Machine

/-- The instruction a frame executes, where the static one is given. -/
def fetch (a : Array Attachment) (f : Frame) (i : Instr) : QuickInstr :=
  if f.quick then
    match (a.getD f.unit default).quickened with
    | some q => q.instrAt f.position
    | none => .plain i
  else .plain i

/-- The words of the site a frame stands at, if its unit is quickened. -/
def wordsAt? (a : Array Attachment) (f : Frame) : Option (Entry × VersionPair) :=
  match f.quick, (a.getD f.unit default).quickened with
  | true, some q => some (q.entryAt f.position, q.versionsAt f.position)
  | _, _ => none

/-- Executes one fetched instruction. -/
def execute (h : Heap) (a : Array Attachment) (vm : Vm) (f : Frame) (rest : List Frame)
    (u : CodeUnit) (i : QuickInstr) : Progress :=
  match i.op with
  | .plain op => stepPlain h a vm f rest u op i.arg
  | op =>
    match wordsAt? a f with
    | none => fail ⟨h, a, vm, f :: rest⟩ (.code (.strayMember u.name))
    | some (e, v) =>
      match op with
      | .plain op => stepPlain h a vm f rest u op i.arg
      | .loadGlobal member => stepLoadGlobal h a vm f rest u member e v
      | .loadAttr member => stepLoadAttr h a vm f rest u member e v
      | .call member => stepCall h a vm f rest u member e
      | .binaryAdd member => stepBinaryAdd h a vm f rest u member

/-- One step. Nothing comes between the record of an instruction, its fetch and its execution, so
the words of a site are those of the member that is executed. -/
def step (m : Machine) : Progress :=
  match m with
  | ⟨h, a, vm, []⟩ => .returned ⟨h, a, vm, []⟩ .none
  | ⟨h, a, vm, f :: rest⟩ =>
    let u := h.unitAt f.unit
    match u.instr? f.position with
    | none => leave h a vm rest .none
    | some i =>
      let vm := vm.observe u.name f.position i
      execute h a vm f rest u (fetch a f i)

/-- The end of an execution: what is left of the machine, and its answer. -/
structure Ending where
  heap : Heap
  attachments : Array Attachment
  vm : Vm
  result : Except Error Value

/-- The world an execution leaves behind. -/
def Ending.world (e : Ending) : World := ⟨e.heap, e.attachments⟩

/-- A machine without frames on a world. -/
def idle (w : World) (vm : Vm) : Machine := ⟨w.heap, w.attachments, vm, []⟩

/-- Starts a top-level unit against a module. A unit with parameters cannot be started so. -/
def start (w : World) (vm : Vm) (u : Nat) (globals : Ref .mod) : Progress :=
  let code := w.heap.unitAt u
  if code.argcount ≠ 0 then
    (idle w vm).fault (.arityMismatch code.name (toString code.argcount.toNat) 0)
  else (idle w vm).enter u globals (Binding.slots code.nlocals.toNat [])

/-- Starts a call from outside. -/
def startCall (w : World) (vm : Vm) (callee : Value) (args : List Value) : Progress :=
  (idle w vm).call callee args

end AdaptiveVM.Machine

namespace AdaptiveVM.Progress

/-- Runs for at most `fuel` steps; nothing if that is not enough. -/
def run : Nat → Progress → Option Machine.Ending
  | _, .returned m v => some ⟨m.heap, m.attachments, m.vm, .ok v⟩
  | _, .failed m e => some ⟨m.heap, m.attachments, m.vm, .error e⟩
  | 0, .running _ => none
  | fuel + 1, .running m => run fuel m.step

/-- More steps than anybody waits for. -/
def patience : Nat := 0x4000000000000000

end AdaptiveVM.Progress
