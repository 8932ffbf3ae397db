import AdaptiveVM.Quickened.Site

/-!
What a machine counts about the sites it executes, family by family. Nothing here feeds back
into an execution.
-/

namespace AdaptiveVM

/-- How often attempts were refused, by reason. -/
structure RefusalCounts where
  notFound : Nat := 0
  unversioned : Nat := 0
  indexOutOfRange : Nat := 0
  arityMismatch : Nat := 0
  unsupportedCallee : Nat := 0
  unsupportedReceiver : Nat := 0
  unsupportedOperands : Nat := 0
  deriving DecidableEq

namespace RefusalCounts

def get (c : RefusalCounts) : Refusal → Nat
  | .notFound => c.notFound
  | .unversioned => c.unversioned
  | .indexOutOfRange => c.indexOutOfRange
  | .arityMismatch => c.arityMismatch
  | .unsupportedCallee => c.unsupportedCallee
  | .unsupportedReceiver => c.unsupportedReceiver
  | .unsupportedOperands => c.unsupportedOperands

def bump (c : RefusalCounts) : Refusal → RefusalCounts
  | .notFound => { c with notFound := c.notFound + 1 }
  | .unversioned => { c with unversioned := c.unversioned + 1 }
  | .indexOutOfRange => { c with indexOutOfRange := c.indexOutOfRange + 1 }
  | .arityMismatch => { c with arityMismatch := c.arityMismatch + 1 }
  | .unsupportedCallee => { c with unsupportedCallee := c.unsupportedCallee + 1 }
  | .unsupportedReceiver => { c with unsupportedReceiver := c.unsupportedReceiver + 1 }
  | .unsupportedOperands => { c with unsupportedOperands := c.unsupportedOperands + 1 }

end RefusalCounts

/-- The counts of one family. -/
structure FamilyStats where
  /-- Executions of the adaptive member. -/
  adaptive : Nat := 0
  success : Nat := 0
  failure : Nat := 0
  hit : Nat := 0
  miss : Nat := 0
  /-- Sites sent back to the adaptive member. -/
  deopt : Nat := 0
  refusals : RefusalCounts := {}
  deriving DecidableEq

/-- Counts one event. An execution of the adaptive member is counted whatever comes of it, and a
miss also when it sends the site back. -/
def FamilyStats.record (s : FamilyStats) : SiteEvent → FamilyStats
  | .counted _ => { s with adaptive := s.adaptive + 1 }
  | .specialized .. => { s with adaptive := s.adaptive + 1, success := s.success + 1 }
  | .refused reason _ =>
    { s with
      adaptive := s.adaptive + 1
      failure := s.failure + 1
      refusals := s.refusals.bump reason }
  | .hit _ => { s with hit := s.hit + 1 }
  | .missed _ => { s with miss := s.miss + 1 }
  | .fellBack => { s with miss := s.miss + 1, deopt := s.deopt + 1 }

structure Stats where
  /-- Units this machine has quickened. -/
  quickenedUnits : Nat := 0
  /-- Attempts to quicken a unit that failed. -/
  quickenFailures : Nat := 0
  loadGlobal : FamilyStats := {}
  loadAttr : FamilyStats := {}
  call : FamilyStats := {}
  binaryAdd : FamilyStats := {}
  deriving DecidableEq

namespace Stats

def family (s : Stats) : Family → FamilyStats
  | .loadGlobal => s.loadGlobal
  | .loadAttr => s.loadAttr
  | .call => s.call
  | .binaryAdd => s.binaryAdd

/-- Counts an event at a site of a family. -/
def record (s : Stats) (family : Family) (event : SiteEvent) : Stats :=
  match family with
  | .loadGlobal => { s with loadGlobal := s.loadGlobal.record event }
  | .loadAttr => { s with loadAttr := s.loadAttr.record event }
  | .call => { s with call := s.call.record event }
  | .binaryAdd => { s with binaryAdd := s.binaryAdd.record event }

/-- The sum of a count over the families. -/
def total (s : Stats) (count : FamilyStats → Nat) : Nat :=
  count s.loadGlobal + count s.loadAttr + count s.call + count s.binaryAdd

/-- One line of the table. -/
def row (cells : List String) : String :=
  match cells with
  | first :: rest =>
    Text.alignLeft 12 first ++
      String.join (List.zipWith (fun width cell => " " ++ Text.alignRight width cell)
        [10, 8, 8, 10, 8, 6] rest) ++ "\n"
  | [] => "\n"

/-- The counts as a table, one family a line. -/
def table (s : Stats) : String :=
  "quickened units: " ++ toString s.quickenedUnits ++ "  quicken failures: " ++
    toString s.quickenFailures ++ "\n" ++
    row ["family", "adaptive", "success", "failure", "hit", "miss", "deopt"] ++
    String.join (Family.all.map fun f =>
      let c := s.family f
      row (f.name :: [c.adaptive, c.success, c.failure, c.hit, c.miss, c.deopt].map toString))

end Stats

end AdaptiveVM
