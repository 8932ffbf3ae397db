import AdaptiveVM.Opcode
import AdaptiveVM.Text.Column

/-!
What can go wrong, by cause.

A fault of the running program carries the chain of calls it came through; a limit, malformed
code or a bad configuration carries none and passes through every frame unchanged. The wording
of each cause stands in one place.
-/

namespace AdaptiveVM

/-- One line of a call chain. -/
inductive TraceFrame where
  /-- A code unit, and the position of the instruction it was executing. -/
  | code (unit : String) (position : Nat)
  /-- A builtin. -/
  | native (builtin : String)
  deriving DecidableEq

def TraceFrame.text : TraceFrame → String
  | .code unit position => "    at " ++ unit ++ " (@" ++ Text.position position ++ ")"
  | .native builtin => "    at " ++ builtin ++ " (native)"

/-- A call chain, innermost first: one line per frame, each ended. -/
def TraceFrame.chain (frames : List TraceFrame) : String :=
  String.join (frames.map fun f => f.text ++ "\n")

/-- The kinds of fault a program can raise. -/
inductive FaultKind where
  | type
  | name
  | attribute
  | overflow
  | unboundLocal
  deriving DecidableEq

def FaultKind.text : FaultKind → String
  | .type => "TypeError"
  | .name => "NameError"
  | .attribute => "AttributeError"
  | .overflow => "OverflowError"
  | .unboundLocal => "UnboundLocalError"

/-- Why a program faults. Types are given by the names the program sees. -/
inductive Fault where
  | notDefined (name : String)
  | notCallable (type : String)
  | noAttribute (type attr : String)
  | readOnly (type : String)
  | unsupportedOperands (operator left right : String)
  | arityMismatch (callee expected : String) (given : Nat)
  | addOverflow
  | subOverflow
  | absOverflow
  | noAbs (type : String)
  | incomparable (callee left right : String)
  | noLength (type : String)
  | unboundLocal (slot : UInt8)
  /-- A fault raised by a builtin in its own words. -/
  | raised (kind : FaultKind) (message : String)
  deriving DecidableEq

namespace Fault

def kind : Fault → FaultKind
  | .notDefined _ => .name
  | .notCallable _ | .unsupportedOperands .. | .arityMismatch .. | .noAbs _ | .incomparable ..
  | .noLength _ => .type
  | .noAttribute .. | .readOnly _ => .attribute
  | .addOverflow | .subOverflow | .absOverflow => .overflow
  | .unboundLocal _ => .unboundLocal
  | .raised kind _ => kind

def message : Fault → String
  | .notDefined name => "name '" ++ name ++ "' is not defined"
  | .notCallable type => "'" ++ type ++ "' object is not callable"
  | .noAttribute type attr => "'" ++ type ++ "' object has no attribute '" ++ attr ++ "'"
  | .readOnly type => "'" ++ type ++ "' object attributes are read-only"
  | .unsupportedOperands operator left right =>
    "unsupported operand types for " ++ operator ++ ": '" ++ left ++ "' and '" ++ right ++ "'"
  | .arityMismatch callee expected given =>
    callee ++ "() takes " ++ expected ++ " arguments but " ++ toString given ++ " were given"
  | .addOverflow => "integer addition overflowed"
  | .subOverflow => "integer subtraction overflowed"
  | .absOverflow => "abs() of the minimum integer"
  | .noAbs type => "bad operand type for abs(): '" ++ type ++ "'"
  | .incomparable callee left right =>
    callee ++ "() cannot compare '" ++ left ++ "' and '" ++ right ++ "'"
  | .noLength type => "object of type '" ++ type ++ "' has no len()"
  | .unboundLocal slot => "local " ++ toString slot.toNat ++ " referenced before assignment"
  | .raised _ message => message

end Fault

/-- A bound that an execution ran into. -/
inductive Limit where
  /-- A quickened form needs more bytes than allowed. -/
  | memory (requested limit : Nat)
  /-- The allocator had no room for a quickened form. -/
  | allocation (requested : Nat)
  /-- One more frame would make `frames` of them. -/
  | depth (frames limit : Nat)
  deriving DecidableEq

namespace Limit

def kindText : Limit → String
  | .memory .. | .allocation _ => "MemoryLimit"
  | .depth .. => "StackDepthLimit"

def message : Limit → String
  | .memory requested limit =>
    "Quickening needs " ++ toString requested ++ " bytes, limit was " ++ toString limit ++ " bytes"
  | .allocation requested =>
    "Allocator refused " ++ toString requested ++ " bytes for quickened code"
  | .depth frames limit =>
    "Call stack depth limit exceeded: " ++ toString frames ++ " frames, limit was " ++
      toString limit

end Limit

/-- What is wrong with a piece of code, found while assembling or while executing it. -/
inductive CodeFault where
  | constantsFull (unit : String)
  | namesFull (unit : String)
  | targetTooFar (unit : String) (target : Nat)
  | noJumpAt (unit : String) (position : Nat)
  | operandRejected (unit : String) (operand : UInt8) (opcode : Opcode) (position : Nat)
  | stackUnderflow (unit : String)
  /-- An executed operand refers to nothing. -/
  | operandOutOfRange (unit : String) (position : Nat)
  /-- A family member turned up outside a quickened stream. -/
  | strayMember (unit : String)
  /-- A builtin was handed fewer arguments than it reads. -/
  | missingArgument (builtin : String)
  | described (message : String)
  deriving DecidableEq

def CodeFault.message : CodeFault → String
  | .constantsFull unit => unit ++ ": constant pool is full"
  | .namesFull unit => unit ++ ": names table is full"
  | .targetTooFar unit target => unit ++ ": jump target " ++ toString target ++ " out of range"
  | .noJumpAt unit position => unit ++ ": no jump at position " ++ toString position
  | .operandRejected unit operand opcode position =>
    unit ++ ": operand " ++ toString operand.toNat ++ " of " ++ opcode.name ++ " at " ++
      toString position ++ " is out of range"
  | .stackUnderflow unit => unit ++ ": stack underflow"
  | .operandOutOfRange unit position => unit ++ ": operand out of range at " ++ toString position
  | .strayMember unit => unit ++ ": family member outside quickened code"
  | .missingArgument builtin => builtin ++ ": missing argument"
  | .described message => message

/-- Why a configuration is refused. -/
inductive ConfigFault where
  | lowThreshold (threshold : UInt8)
  | initialNotAboveMin (initial min : UInt8)
  | initialAboveMax (initial max : UInt8)
  | zeroStep
  | smallMissStep (step max misses min allowed : UInt8)
  | zeroDepth
  | unknownWorkload (name : String) (known : List String)
  | tooManyIterations (workload : String) (iterations : Int64)
  | described (message : String)
  deriving DecidableEq

def ConfigFault.message : ConfigFault → String
  | .lowThreshold threshold =>
    "specialize_threshold must be at least 2, got " ++ toString threshold.toNat
  | .initialNotAboveMin initial min =>
    "counter_initial (" ++ toString initial.toNat ++ ") must be greater than counter_min (" ++
      toString min.toNat ++ ")"
  | .initialAboveMax initial max =>
    "counter_initial (" ++ toString initial.toNat ++ ") must not exceed counter_max (" ++
      toString max.toNat ++ ")"
  | .zeroStep => "hit_step and miss_step must be non-zero"
  | .smallMissStep step max misses min allowed =>
    "miss_step (" ++ toString step.toNat ++ ") too small: a counter at " ++ toString max.toNat ++
      " needs " ++ toString misses.toNat ++ " misses to reach " ++ toString min.toNat ++
      ", more than initial - min (" ++ toString allowed.toNat ++ ")"
  | .zeroDepth => "max_frame_depth must be non-zero"
  | .unknownWorkload name known =>
    "unknown workload '" ++ name ++ "' (expected one of: " ++ ", ".intercalate known ++ ")"
  | .tooManyIterations workload iterations =>
    workload ++ ": " ++ toString iterations.toInt ++ " iterations overflow the result"
  | .described message => message

/-- Everything that can go wrong. -/
inductive Error where
  | fault (cause : Fault) (trace : List TraceFrame)
  | limit (cause : Limit)
  | code (cause : CodeFault)
  | config (cause : ConfigFault)
  /-- A configuration file could not be read, for the reason the system gives. -/
  | unreadable (reason : String)
  /-- A configuration text is no configuration. -/
  | unparsable (reason : String)
  deriving DecidableEq

namespace Error

/-- A fault that has not come through any frame yet. -/
def ofFault (cause : Fault) : Error := .fault cause []

/-- The error after it has come through some more frames, innermost first. Only a fault keeps
track of them. -/
def through (e : Error) (frames : List TraceFrame) : Error :=
  match e with
  | .fault cause trace => .fault cause (trace ++ frames)
  | e => e

def message : Error → String
  | .fault cause _ => cause.message
  | .limit cause => cause.message
  | .code cause => cause.message
  | .config cause => cause.message
  | .unreadable reason => reason
  | .unparsable reason => reason

/-- The kind of fault, if it is one. -/
def faultKind? : Error → Option FaultKind
  | .fault cause _ => some cause.kind
  | _ => none

/-- The whole text of an error: its kind, its message, and the call chain if there is one. -/
def text : Error → String
  | .fault cause trace =>
    cause.kind.text ++ ": " ++ cause.message ++
      (if trace.isEmpty then "" else "\n" ++ TraceFrame.chain trace)
  | .limit cause => "ResourceLimitError: " ++ cause.kindText ++ ": " ++ cause.message
  | .code cause => "InvalidBytecode: " ++ cause.message
  | .config cause => "InvalidConfig: " ++ cause.message
  | .unreadable reason => "IOError: " ++ reason
  | .unparsable reason => "ConfigParseError: " ++ reason

end Error

end AdaptiveVM
