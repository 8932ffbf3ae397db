import AdaptiveVM.CommandLine.Arguments
import AdaptiveVM.Config.File
import AdaptiveVM.Listing
import AdaptiveVM.Machine.Step
import AdaptiveVM.Workload

/-!
What the command line does: it runs a workload and shows what became of it.

The answer is worked out without touching the outside: the file is given by a function that
reads it, and the place of the elapsed time is left open.
-/

namespace AdaptiveVM.CommandLine

def version : String := "0.1.0"

/-- The end of a session. -/
structure Outcome where
  exit : UInt32 := 0
  /-- What is printed, given the elapsed time. -/
  output : String → String := fun _ => ""
  /-- What is printed as an error. -/
  complaint : String := ""

/-- What went wrong, in the words of the command line, and why. -/
structure Failure where
  context : String
  causes : List String := []

namespace Failure

/-- An error as a cause, and what it was caused by in turn. -/
def causesOf (e : Error) : List String :=
  match e with
  | .unreadable reason => [e.text, reason]
  | .unparsable reason => [e.text, reason]
  | e => [e.text]

def ofError (context : String) (e : Error) : Failure := ⟨context, causesOf e⟩

/-- A cause, its later lines as far in as its first. -/
def indent (first later cause : String) : String :=
  first ++ ("\n" ++ later).intercalate (cause.splitOn "\n")

/-- The causes, numbered if there is more than one. -/
def causeLines : List String → List String
  | [cause] => [indent "    " "    " cause]
  | causes => causes.zipIdx.map fun (cause, i) =>
      indent (Text.alignRight 5 (toString i) ++ ": ") "       " cause

def text (f : Failure) : String :=
  if f.causes.isEmpty then "Error: " ++ f.context ++ "\n"
  else
    "Error: " ++ f.context ++ "\n\nCaused by:\n" ++ "\n".intercalate (causeLines f.causes) ++ "\n"

end Failure

/-- A failed session, after some output. -/
def Outcome.failed (printed : String) (f : Failure) : Outcome :=
  { exit := 1, output := fun _ => printed, complaint := f.text }

/-- A workload in a world of its own, and a machine to run it. -/
structure Stage where
  workload : Workload
  world : World
  vm : Vm

/-- Sets the stage for a workload. -/
def prepare (config : Config) (name : String) (iterations : UInt32) : Except Failure Stage :=
  match (Workload.byName name iterations).on {} with
  | (.error e, _) => .error (.ofError ("building workload '" ++ name ++ "'") e)
  | (.ok workload, world) =>
    let (vm, heap) := Vm.create config world.heap
    .ok { workload, world := { world with heap }, vm }

/-- Runs the workload once. -/
def Stage.run (s : Stage) : Except Failure (Value × Stage) :=
  let context := "running workload '" ++ s.workload.name ++ "'"
  match (Machine.start s.world s.vm s.workload.unit s.workload.globals).run Progress.patience with
  | none => .error ⟨context, ["the execution does not end"]⟩
  | some ending =>
    match ending.result with
    | .ok v => .ok (v, { s with world := ending.world, vm := ending.vm })
    | .error e => .error (.ofError context e)

/-- Runs the workload some more times, and keeps the last answer. -/
def Stage.again (s : Stage) (last : Value) : Nat → Except Failure (Value × Stage)
  | 0 => .ok (last, s)
  | n + 1 =>
    match s.run with
    | .ok (v, s) => s.again v n
    | .error f => .error f

/-- Runs the workload at least once. The first answer must be the expected one. -/
def Stage.rounds (s : Stage) (n : Nat) : Except Failure (Value × Stage) :=
  match s.run with
  | .error f => .error f
  | .ok (v, s) =>
    if v.equal s.workload.expected then s.again v (n - 1)
    else
      .error
        { context := "workload '" ++ s.workload.name ++ "' returned " ++ v.display ++ " but " ++
            s.workload.expected.display ++ " was expected" }

/-- The quickened form of the workload's unit. -/
def Stage.quickened? (s : Stage) : Option Quickened :=
  (s.world.attachmentAt s.workload.unit).quickened

/-- The workload's unit. -/
def Stage.unit (s : Stage) : CodeUnit := s.world.heap.unitAt s.workload.unit

def runCommand (config : Config) (name : String) (iterations rounds : UInt32) (json : Bool) :
    Outcome :=
  match prepare config name iterations with
  | .error f => .failed "" f
  | .ok s =>
    match s.rounds rounds.toNat with
    | .error f => .failed "" f
    | .ok (v, s) =>
      if json then { output := fun _ => s.vm.stats.report.pretty ++ "\n" }
      else
        { output := fun elapsed =>
            "quicken " ++ version ++ " | " ++ name ++ " (" ++ s.vm.config.mode.label ++
              " mode)\n" ++
            "result: " ++ v.display ++ "\n" ++
            "time:   " ++ elapsed ++ " for " ++ toString (max rounds.toNat 1) ++ " run(s)\n\n" ++
            s.vm.stats.table }

def disasmCommand (config : Config) (name : String) (iterations : UInt32) : Outcome :=
  match prepare config name iterations with
  | .error f => .failed "" f
  | .ok s =>
    let before := s.unit.listing
    match s.run with
    | .error f => .failed before f
    | .ok (_, s) =>
      let after := match s.quickened? with
        | some q => q.listing s.unit
        | none => "(not quickened after one run)\n"
      { output := fun _ => before ++ "\n" ++ after }

def sitesCommand (config : Config) (name : String) (iterations : UInt32) (json : Bool) : Outcome :=
  match prepare config name iterations with
  | .error f => .failed "" f
  | .ok s =>
    match s.run with
    | .error f => .failed "" f
    | .ok (_, s) =>
      let shown := match s.quickened? with
        | none => s.unit.name ++ " was not quickened\n"
        | some q =>
          if json then (Report.list (q.sites.map SiteInfo.report)).pretty ++ "\n"
          else
            "== " ++ s.unit.name ++ " ==\n" ++
              String.join (q.sites.map fun site => site.text ++ "\n")
      { output := fun _ => shown }

/-- One line for each workload. -/
def catalogue : List String → Except Failure String
  | [] => .ok ""
  | name :: rest =>
    match ((Workload.byName name 1).on {}).1 with
    | .error e => .error ⟨e.text, (Failure.causesOf e).drop 1⟩
    | .ok w =>
      match catalogue rest with
      | .ok lines => .ok (Text.alignLeft 16 name ++ " " ++ w.description ++ "\n" ++ lines)
      | .error f => .error f

def perform (config : Config) : Command → Outcome
  | .run name iterations rounds trace json =>
    let config := if trace then { config with mode := .tracing } else config
    runCommand config name iterations rounds json
  | .disasm name iterations => disasmCommand config name iterations
  | .sites name iterations json => sitesCommand config name iterations json
  | .config => { output := fun _ => config.text ++ "\n" }
  | .list =>
    match catalogue Workload.names with
    | .ok lines => { output := fun _ => lines }
    | .error f => .failed "" f

/-- The configuration from a file, or the default one. -/
def configure (read : String → Except String String) : Option String → Except Failure Config
  | none => .ok {}
  | some file =>
    let context := "loading configuration from " ++ file
    match read file with
    | .error reason => .error (.ofError context (.unreadable reason))
    | .ok text =>
      match Config.ofText text with
      | .ok c => .ok c
      | .error e => .error (.ofError context e)

def usageText : String :=
  "An adaptive, self-specializing bytecode interpreter\n\n" ++
  "Usage: quicken [OPTIONS] <COMMAND>\n\n" ++
  "Commands:\n" ++
  "  run     Run a workload and print specialization statistics\n" ++
  "  disasm  Disassemble a workload, before and after running it\n" ++
  "  sites   Run a workload and list the state of every family site\n" ++
  "  config  Print the effective configuration as JSON\n" ++
  "  list    List available workloads\n" ++
  "  help    Print this message\n\n" ++
  "Options:\n" ++
  "  -c, --config <FILE>  JSON configuration file; missing fields take defaults\n" ++
  "  -v, --verbose...     Verbose output\n" ++
  "  -h, --help           Print help\n" ++
  "  -V, --version        Print version\n"

/-- The whole session. -/
def session (read : String → Except String String) (args : List String) : Outcome :=
  match parse args with
  | .error .help => { output := fun _ => usageText }
  | .error .version => { output := fun _ => "quicken " ++ version ++ "\n" }
  | .error (.invalid reason) => { exit := 2, complaint := "error: " ++ reason ++ "\n" }
  | .ok invocation =>
    match configure read invocation.configFile with
    | .error f => .failed "" f
    | .ok config => perform config invocation.command

end AdaptiveVM.CommandLine
