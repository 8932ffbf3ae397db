import AdaptiveVM.Config
import AdaptiveVM.Quickened.Layout

/-!
The life of a site.

An adaptive site counts its executions and, once there have been enough, tries to specialize;
a refused attempt starts the count over. A specialized site checks its guard: its counter goes
up when the guard holds and down when it fails, and a counter at its lower bound sends the
site back to the adaptive member. One execution of a site is one event.
-/

namespace AdaptiveVM

/-- Why an attempt to specialize is refused. -/
inductive Refusal where
  | notFound
  | unversioned
  | indexOutOfRange
  | arityMismatch
  | unsupportedCallee
  | unsupportedReceiver
  | unsupportedOperands
  deriving DecidableEq

namespace Refusal

/-- All reasons, in the order in which they are reported. -/
def all : List Refusal :=
  [.notFound, .unversioned, .indexOutOfRange, .arityMismatch, .unsupportedCallee,
   .unsupportedReceiver, .unsupportedOperands]

def name : Refusal → String
  | .notFound => "not_found"
  | .unversioned => "unversioned"
  | .indexOutOfRange => "index_out_of_range"
  | .arityMismatch => "arity_mismatch"
  | .unsupportedCallee => "unsupported_callee"
  | .unsupportedReceiver => "unsupported_receiver"
  | .unsupportedOperands => "unsupported_operands"

end Refusal

/-- The part of a site's first word that its guard reads. -/
structure Guard where
  index : UInt16
  version : Token
  deriving DecidableEq

/-- What an attempt to specialize leaves in the words of a site, and what it comes to. -/
structure Attempt where
  guard : Option Guard := none
  versions : Option VersionPair := none
  verdict : Except Refusal QuickOp

namespace Attempt

/-- An attempt that is given up before anything is written. -/
def refuse (reason : Refusal) : Attempt := { verdict := .error reason }

end Attempt

/-- What an execution finds at a site: an adaptive member, with what an attempt to specialize
would come to, or a specialized one, whose guard holds or fails. -/
inductive Trial where
  | adaptive (attempt : Attempt)
  | guarded (holds : Bool)

/-- What an execution does to a site. -/
inductive SiteEvent where
  /-- One more execution is counted. -/
  | counted (executions : UInt8)
  | specialized (op : QuickOp) (attempt : Attempt) (counter : UInt8)
  | refused (reason : Refusal) (attempt : Attempt)
  | hit (counter : UInt8)
  | missed (counter : UInt8)
  /-- The guard has failed once too often. -/
  | fellBack

/-- The event of one execution of a site whose counter is given. -/
def Trial.event (c : Config) (counter : UInt8) : Trial → SiteEvent
  | .adaptive attempt =>
    let executions := saturatingAdd counter 1
    if executions < c.specializeThreshold then .counted executions
    else
      match attempt.verdict with
      | .ok op => .specialized op attempt c.policy.initial
      | .error reason => .refused reason attempt
  | .guarded true => .hit (c.policy.hit counter)
  | .guarded false =>
    let counter := c.policy.miss counter
    if c.policy.falls counter then .fellBack else .missed counter

namespace Quickened

/-- The site at a position keeps its counter in a cache word. -/
def hasEntries (q : Quickened) (position : Nat) : Bool :=
  match (q.instrAt position).op.family? with
  | some family => 0 < family.entries
  | none => false

/-- The counter of the site at a position. -/
def counter (q : Quickened) (position : Nat) : UInt8 :=
  if q.hasEntries position then (q.entryAt position).counter else (q.instrAt position).arg

def setCounter (q : Quickened) (position : Nat) (counter : UInt8) : Quickened :=
  if q.hasEntries position then
    let e := q.entryAt position
    q.setEntry position { e with counter }
  else
    { q with instrs := q.instrs.modify position fun i => { i with arg := counter } }

/-- Puts another member at a position. The operand stays, and with it the site's words. -/
def setMember (q : Quickened) (position : Nat) (op : QuickOp) : Quickened :=
  { q with instrs := q.instrs.modify position fun i => { i with op } }

/-- Writes the guard of the site at a position, and keeps its operand and counter. -/
def setGuard (q : Quickened) (position : Nat) (g : Guard) : Quickened :=
  let e := q.entryAt position
  q.setEntry position { e with index := g.index, version := g.version }

/-- Writes what an attempt to specialize leaves behind. -/
def write (q : Quickened) (position : Nat) (attempt : Attempt) : Quickened :=
  let q := match attempt.guard with
    | some g => q.setGuard position g
    | none => q
  match attempt.versions with
  | some v => q.setVersions position v
  | none => q

/-- The stream after an event at a site of a family. -/
def apply (q : Quickened) (position : Nat) (family : Family) : SiteEvent → Quickened
  | .counted executions => q.setCounter position executions
  | .specialized op attempt counter =>
    ((q.write position attempt).setMember position op).setCounter position counter
  | .refused _ attempt => (q.write position attempt).setCounter position 0
  | .hit counter | .missed counter => q.setCounter position counter
  | .fellBack => (q.setMember position (.adaptive family)).setCounter position 0

end Quickened

/-! ### Records of all sites -/

/-- How far a site has come. -/
inductive SiteState where
  /-- It was left static for good. -/
  | unquickened
  | adaptive (executions : UInt8)
  | specialized (counter : UInt8)
  deriving DecidableEq

/-- The record of one site. -/
structure SiteInfo where
  position : Nat
  op : QuickOp
  state : SiteState
  deriving DecidableEq

namespace SiteInfo

/-- The static opcode at the site. -/
def opcode (s : SiteInfo) : Opcode := s.op.opcode

def text (s : SiteInfo) : String :=
  Text.position s.position ++ " " ++ Text.alignLeft 24 s.op.name ++ " " ++
    match s.state with
    | .unquickened => "unquickened"
    | .adaptive executions => "adaptive executions=" ++ toString executions.toNat
    | .specialized counter => "specialized counter=" ++ toString counter.toNat

end SiteInfo

/-- The state of the instruction at a position, if it is a site. -/
def Quickened.state? (q : Quickened) (position : Nat) : Option SiteState :=
  match (q.instrAt position).op with
  | .plain op => if op.family?.isSome then some .unquickened else none
  | op =>
    if op.isAdaptive then some (.adaptive (q.counter position))
    else some (.specialized (q.counter position))

/-- The records of all sites, by position. -/
def Quickened.sites (q : Quickened) : List SiteInfo :=
  (List.range q.instrs.size).filterMap fun position =>
    (q.state? position).map fun state => ⟨position, (q.instrAt position).op, state⟩

end AdaptiveVM
