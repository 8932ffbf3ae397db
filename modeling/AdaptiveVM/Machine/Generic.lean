import AdaptiveVM.Machine.Call

/-!
The static instructions, one by one.

What an instruction does to its own frame is worked out first, as an effect, from the heap as
it is; the effect is then carried out on the machine.
-/

namespace AdaptiveVM

/-- What an instruction asks of the machine. -/
inductive Effect where
  /-- Go on with the frame, at the next position. -/
  | next (f : Frame)
  /-- Go on at a position. -/
  | jump (f : Frame) (target : Nat)
  /-- Bind a global, then go on. -/
  | assign (f : Frame) (key : String) (value : Value)
  /-- Store an attribute, then go on. -/
  | store (f : Frame) (receiver : Value) (key : String) (value : Value)
  /-- Call a value; its answer goes onto the frame's stack. -/
  | call (f : Frame) (callee : Value) (args : List Value)
  /-- Leave the frame. -/
  | leave (value : Value)

namespace Frame

/-- What a static instruction asks for. -/
def effect (f : Frame) (h : Heap) (builtins : Ref .mod) (u : CodeUnit) (op : Opcode)
    (arg : UInt8) : Except Error Effect :=
  let underflow : Except Error Effect := .error (.code (.stackUnderflow u.name))
  let badOperand : Except Error Effect := .error (.code (.operandOutOfRange u.name f.position))
  let binary (compute : Value → Value → Except Fault Value) : Except Error Effect :=
    match f.stack with
    | right :: left :: rest =>
      match compute left right with
      | .ok v => .ok (.next { f with stack := v :: rest })
      | .error cause => .error (.ofFault cause)
    | _ => underflow
  match op with
  | .nop => .ok (.next f)
  | .pop =>
    match f.stack with
    | _ :: rest => .ok (.next { f with stack := rest })
    | [] => underflow
  | .dup =>
    match f.stack with
    | v :: rest => .ok (.next { f with stack := v :: v :: rest })
    | [] => underflow
  | .loadConst =>
    match u.constant? arg with
    | some v => .ok (.next (f.push v))
    | none => badOperand
  | .loadFast =>
    match f.locals[arg.toNat]? with
    | some (some v) => .ok (.next (f.push v))
    | some none => .error (.ofFault (.unboundLocal arg))
    | none => badOperand
  | .storeFast =>
    match f.stack with
    | v :: rest =>
      if arg.toNat < f.locals.size then
        .ok (.next { f with stack := rest, locals := f.locals.setIfInBounds arg.toNat (some v) })
      else badOperand
    | [] => underflow
  | .loadGlobal =>
    match u.name? arg with
    | some key =>
      match Operation.loadGlobal (h.namespaceAt f.globals.id) (h.namespaceAt builtins.id) key with
      | .ok v => .ok (.next (f.push v))
      | .error cause => .error (.ofFault cause)
    | none => badOperand
  | .storeGlobal =>
    match u.name? arg with
    | some key =>
      match f.stack with
      | v :: rest => .ok (.assign { f with stack := rest } key v)
      | [] => underflow
    | none => badOperand
  | .loadAttr =>
    match u.name? arg with
    | some key =>
      match f.stack with
      | receiver :: rest =>
        match Operation.loadAttr h receiver key with
        | .ok v => .ok (.next { f with stack := v :: rest })
        | .error cause => .error (.ofFault cause)
      | [] => underflow
    | none => badOperand
  | .storeAttr =>
    match u.name? arg with
    | some key =>
      match f.stack with
      | receiver :: v :: rest =>
        if Operation.isWritable receiver then .ok (.store { f with stack := rest } receiver key v)
        else .error (.ofFault (.readOnly receiver.typeName))
      | _ => underflow
    | none => badOperand
  | .binaryAdd => binary Operation.add
  | .binarySub => binary Operation.sub
  | .compareLt => binary Operation.lessThan
  | .jump => .ok (.jump f arg.toNat)
  | .jumpIfFalse =>
    match f.stack with
    | v :: rest =>
      if v.isTruthy then .ok (.next { f with stack := rest })
      else .ok (.jump { f with stack := rest } arg.toNat)
    | [] => underflow
  | .call =>
    match f.popMany? arg.toNat with
    | some (args, callee :: rest) => .ok (.call { f with stack := rest } callee args)
    | _ => underflow
  | .ret =>
    match f.stack with
    | v :: _ => .ok (.leave v)
    | [] => underflow

end Frame

namespace Machine

/-- Takes a jump of the innermost frame. A jump that does not lead forward warms the unit up, and
the frame may change to the quickened stream at its target. -/
def jump (h : Heap) (a : Array Attachment) (vm : Vm) (f : Frame) (rest : List Frame)
    (target : Nat) : Progress :=
  if target ≤ f.position ∧ f.quick = false then
    match warmUp h a vm f.unit with
    | (.ok quick, a, vm) => .running ⟨h, a, vm, { f with position := target, quick } :: rest⟩
    | (.error e, a, vm) => fail ⟨h, a, vm, f :: rest⟩ e
  else .running ⟨h, a, vm, { f with position := target } :: rest⟩

/-- Carries out an effect of the innermost frame. -/
def carryOut (h : Heap) (a : Array Attachment) (vm : Vm) (rest : List Frame) :
    Effect → Progress
  | .next f => .running ⟨h, a, vm, f.advance :: rest⟩
  | .jump f target => jump h a vm f rest target
  | .assign f key value =>
    .running ⟨h.assign f.globals.id key value, a, vm, f.advance :: rest⟩
  | .store f receiver key value =>
    .running ⟨Operation.putAttr h receiver key value, a, vm, f.advance :: rest⟩
  | .call f callee args => call ⟨h, a, vm, f :: rest⟩ callee args
  | .leave v => leave h a vm rest v

/-- Executes a static instruction in the innermost frame. -/
def stepPlain (h : Heap) (a : Array Attachment) (vm : Vm) (f : Frame) (rest : List Frame)
    (u : CodeUnit) (op : Opcode) (arg : UInt8) : Progress :=
  match f.effect h vm.builtins u op arg with
  | .ok effect => carryOut h a vm rest effect
  | .error e => fail ⟨h, a, vm, f :: rest⟩ e

end Machine

end AdaptiveVM
