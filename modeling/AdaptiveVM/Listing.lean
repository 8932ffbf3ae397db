import AdaptiveVM.Code
import AdaptiveVM.Quickened.Site
import AdaptiveVM.Report
import AdaptiveVM.Stats

/-!
Listings of code for a reader, and reports on sites and counts.
-/

namespace AdaptiveVM

namespace CodeUnit

/-- An operand, with what it refers to. -/
def operand (u : CodeUnit) (op : Opcode) (arg : UInt8) : String :=
  let number := toString arg.toNat
  match op.operandKind with
  | .none => ""
  | .const =>
    match u.constant? arg with
    | some v => number ++ " (" ++ v.display ++ ")"
    | none => number
  | .name =>
    match u.name? arg with
    | some s => number ++ " (" ++ s ++ ")"
    | none => number
  | .local => number
  | .target => "-> " ++ number
  | .argCount => "args=" ++ number

/-- One line of a listing. -/
def line (position width : Nat) (name operand : String) : String :=
  Text.position position ++ " " ++ Text.alignLeft width name ++ " " ++ operand ++ "\n"

/-- The static stream, one instruction a line. -/
def listing (u : CodeUnit) : String :=
  "== " ++ u.name ++ " ==\n" ++
    String.join (u.instrs.toList.zipIdx.map fun (i, position) =>
      line position 16 i.op.name (u.operand i.op i.arg))

/-- The unit in one line. -/
def debug (u : CodeUnit) (quickened : Bool) : String :=
  "CodeUnit \x7b name: " ++ Text.quoted u.name ++ ", len: " ++ toString u.size ++
    ", argcount: " ++ toString u.argcount.toNat ++ ", nlocals: " ++ toString u.nlocals.toNat ++
    ", quickened: " ++ (if quickened then "true" else "false") ++ " \x7d"

end CodeUnit

namespace Quickened

/-- The operand of a quickened instruction: that of the static one, and for a site its words and
its counter. -/
def operand (q : Quickened) (u : CodeUnit) (position : Nat) : String :=
  let i := q.instrAt position
  match i.op, q.cacheRange? position with
  | .plain op, _ => u.operand op i.arg
  | op, some (first, last) =>
    let e := q.entryAt position
    u.operand op.opcode e.arg ++ " cache=" ++ toString first ++ ".." ++ toString last ++
      " counter=" ++ toString e.counter.toNat
  | _, none => "counter=" ++ toString i.arg.toNat

/-- The quickened stream of a unit, one instruction a line. -/
def listing (q : Quickened) (u : CodeUnit) : String :=
  "== " ++ u.name ++ " (quickened, " ++ toString q.cache.size ++ " entries) ==\n" ++
    String.join ((List.range q.instrs.size).map fun position =>
      CodeUnit.line position 24 (q.instrAt position).op.name (q.operand u position))

end Quickened

/-- A member under the name of its family. -/
def QuickOp.report (op : QuickOp) : Report := .record [(op.group, .text op.label)]

namespace SiteState

/-- The state's name, and its counter if it has one. -/
def fields : SiteState → List (String × Report)
  | .unquickened => [("state", .text "unquickened")]
  | .adaptive executions =>
    [("state", .text "adaptive"), ("executions", .number executions.toNat)]
  | .specialized counter =>
    [("state", .text "specialized"), ("counter", .number counter.toNat)]

end SiteState

def SiteInfo.report (s : SiteInfo) : Report :=
  .record
    ([("position", .number s.position), ("opcode", .text s.opcode.name), ("op", s.op.report)] ++
      s.state.fields)

/-- The families in the order of their names. -/
def Family.byName : List Family := [.binaryAdd, .call, .loadAttr, .loadGlobal]

/-- The reasons in the order of their names. -/
def Refusal.byName : List Refusal :=
  [.arityMismatch, .indexOutOfRange, .notFound, .unsupportedCallee, .unsupportedOperands,
   .unsupportedReceiver, .unversioned]

/-- The counts of a family; of the refusals, only those that have come up. -/
def FamilyStats.report (s : FamilyStats) : Report :=
  .record
    [("adaptive", .number s.adaptive),
     ("success", .number s.success),
     ("failure", .number s.failure),
     ("hit", .number s.hit),
     ("miss", .number s.miss),
     ("deopt", .number s.deopt),
     ("failures",
      .record ((Refusal.byName.filter fun r => s.refusals.get r ≠ 0).map fun r =>
        (r.name, .number (s.refusals.get r))))]

def Stats.report (s : Stats) : Report :=
  .record
    [("quickened_units", .number s.quickenedUnits),
     ("quicken_failures", .number s.quickenFailures),
     ("families", .record (Family.byName.map fun f => (f.name, (s.family f).report)))]

end AdaptiveVM
