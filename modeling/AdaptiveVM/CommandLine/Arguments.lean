/-!
The arguments of the command line.

Arguments are scanned from left to right, one a step, and the first fault ends the scan. An option
whose value is an argument of its own counts only when the scan has moved past that value. The
first plain word names the command, which has options of its own; the options before it may also
stand after it, and then those after it win.
-/

namespace AdaptiveVM.CommandLine

/-- Why there is nothing to execute. -/
inductive Usage where
  /-- The user asked for help. -/
  | help
  /-- The user asked for the version. -/
  | version
  | invalid (reason : String)
  deriving DecidableEq

/-- What an option is for. -/
inductive Key where
  | config
  | verbose
  | help
  | version
  | iterations
  | rounds
  | trace
  | json
  deriving DecidableEq

/-- What the value of an option must be. -/
inductive ValueKind where
  /-- A number of times. -/
  | count
  /-- The name of a file. -/
  | file
  deriving DecidableEq

structure Opt where
  key : Key
  short : Option Char := none
  long : String
  /-- The value that follows it, if one does. -/
  value : Option ValueKind := none
  /-- It may be given more than once. -/
  repeatable : Bool := false

/-- The options that may stand on either side of the command. -/
def globals : List Opt :=
  [{ key := .config, short := some 'c', long := "config", value := some .file },
   { key := .verbose, short := some 'v', long := "verbose", repeatable := true },
   { key := .help, short := some 'h', long := "help" }]

def iterations : Opt :=
  { key := .iterations, short := some 'n', long := "iterations", value := some .count }

def rounds : Opt := { key := .rounds, short := some 'r', long := "repeat", value := some .count }

def trace : Opt := { key := .trace, long := "trace" }

def json : Opt := { key := .json, long := "json" }

/-- What may be given in one place: some options, and so many plain words. -/
structure Grammar where
  opts : List Opt
  words : Nat := 0

/-- What may stand before the command. -/
def leading : Grammar :=
  { opts := { key := .version, short := some 'V', long := "version" } :: globals }

/-! ### One argument -/

inductive Argument where
  /-- Two dashes: only words follow. -/
  | escape
  /-- A long option, perhaps with a value after an equals sign. -/
  | long (name : String) (value : Option String)
  /-- A dash and letters. -/
  | short (letters : List Char)
  | word (s : String)

/-- What follows an equals sign. -/
def attached : List Char → Option String
  | '=' :: value => some (String.ofList value)
  | _ => none

def Argument.ofString (s : String) : Argument :=
  match s.toList with
  | ['-', '-'] => .escape
  | '-' :: '-' :: rest =>
    .long (String.ofList (rest.takeWhile (· ≠ '='))) (attached (rest.dropWhile (· ≠ '=')))
  | ['-'] => .word s
  | '-' :: rest => .short rest
  | _ => .word s

/-! ### Values of options -/

/-- The digits as a number, if there are any and nothing else. -/
def decimal? (ds : List Char) : Option Nat :=
  if ds.isEmpty || !ds.all Char.isDigit then none
  else some (ds.foldl (fun n d => 10 * n + (d.toNat - '0'.toNat)) 0)

/-- A whole number, perhaps with a sign. -/
def integer? (s : String) : Option Int :=
  match s.toList with
  | '+' :: ds => (decimal? ds).map Int.ofNat
  | '-' :: ds => (decimal? ds).map fun n => -Int.ofNat n
  | ds => (decimal? ds).map Int.ofNat

/-- A count that fits 32 bits. -/
def count? (s : String) : Option UInt32 :=
  match integer? s with
  | some n => if 0 ≤ n ∧ n < 0x100000000 then some n.toNat.toUInt32 else none
  | none => none

/-- The text can be the value of such an option. A file name cannot be empty. -/
def ValueKind.accepts : ValueKind → String → Bool
  | .count, s => (count? s).isSome
  | .file, s => !s.isEmpty

/-! ### The scan -/

/-- An option whose value is an argument of its own, with the value once it has been read. -/
structure Pending where
  opt : Opt
  value : Option String := none

structure Scan where
  /-- Options with their values, the latest first. -/
  given : List (Key × String) := []
  /-- Plain words, in order. -/
  words : List String := []
  /-- An option that does not count yet. -/
  pending : Option Pending := none
  /-- Two dashes have gone by. -/
  escaped : Bool := false

namespace Scan

/-- Records an option with its value, if it has one. -/
def record (s : Scan) (o : Opt) (value : String) : Except Usage Scan :=
  match o.key with
  | .help => .error .help
  | .version => .error .version
  | key =>
    if !o.repeatable && s.given.any (·.1 = key) then
      .error (.invalid ("--" ++ o.long ++ " cannot be used multiple times"))
    else if o.value.any fun kind => !kind.accepts value then
      .error (.invalid ("invalid value '" ++ value ++ "' for --" ++ o.long))
    else .ok { s with given := (key, value) :: s.given }

/-- Lets the pending option count. -/
def settle (s : Scan) : Except Usage Scan :=
  match s.pending with
  | none => .ok s
  | some ⟨o, none⟩ => .error (.invalid ("a value is required for --" ++ o.long))
  | some ⟨o, some v⟩ => { s with pending := none }.record o v

/-- Takes an option in, with its value if it has one. -/
def put (s : Scan) (o : Opt) (value : String) : Except Usage Scan := do
  (← s.settle).record o value

/-- Takes an option in whose value is the next argument. -/
def await (s : Scan) (o : Opt) : Except Usage Scan := do
  return { (← s.settle) with pending := some { opt := o } }

/-- Takes a cluster of letters in. The first option with a value ends it: the value is the rest of
the cluster, or else the next argument. -/
def letters (opts : List Opt) (s : Scan) : List Char → Except Usage Scan
  | [] => .ok s
  | c :: rest =>
    match opts.find? (·.short = some c) with
    | none => .error (.invalid ("unexpected argument -" ++ String.singleton c))
    | some o =>
      if o.value.isSome then
        match rest with
        | [] => s.await o
        | '=' :: value => s.put o (String.ofList value)
        | value => s.put o (String.ofList value)
      else
        match s.put o "" with
        | .ok s => s.letters opts rest
        | .error e => .error e

def long (opts : List Opt) (s : Scan) (name : String) (value : Option String) :
    Except Usage Scan :=
  match opts.find? (·.long = name) with
  | none => .error (.invalid ("unexpected argument --" ++ name))
  | some o =>
    if o.value.isSome then
      match value with
      | some v => s.put o v
      | none => s.await o
    else
      match value with
      | some _ => .error (.invalid ("unexpected value for --" ++ name))
      | none => s.put o ""

/-- Takes a plain word in, unless there are enough already. -/
def word (room : Nat) (s : Scan) (w : String) : Except Usage Scan := do
  if s.words.length < room then
    let s ← s.settle
    return { s with words := s.words ++ [w] }
  else throw (.invalid ("unexpected argument '" ++ w ++ "'"))

/-- The option that waits for the next argument. -/
def awaited (s : Scan) : Option Opt :=
  match s.pending with
  | some ⟨o, none⟩ => some o
  | _ => none

/-- One argument. -/
def step (g : Grammar) (s : Scan) (arg : String) : Except Usage Scan :=
  if s.escaped then s.word g.words arg
  else
    match Argument.ofString arg with
    | .word w =>
      match s.awaited with
      | some o => .ok { s with pending := some { opt := o, value := some w } }
      | none => s.word g.words w
    | .escape => .ok { s with escaped := true }
    | .long name value => s.long g.opts name value
    | .short cluster => s.letters g.opts cluster

/-- All arguments of a command. -/
def run (g : Grammar) (s : Scan) : List String → Except Usage Scan
  | [] => s.settle
  | arg :: rest =>
    match s.step g arg with
    | .ok s => s.run g rest
    | .error e => .error e

/-- The argument names a command. -/
def atCommand (s : Scan) (arg : String) : Bool :=
  match Argument.ofString arg with
  | .word _ => !s.escaped && s.awaited.isNone
  | _ => false

/-- The arguments before the command, the command, and those after it. -/
def toCommand (s : Scan) : List String → Except Usage (Scan × String × List String)
  | [] => .error (.invalid "a command is required")
  | arg :: rest =>
    if s.atCommand arg then .ok (s, arg, rest)
    else
      match s.step leading arg with
      | .ok s => s.toCommand rest
      | .error e => .error e

def has (s : Scan) (key : Key) : Bool := s.given.any (·.1 = key)

/-- The value of an option. -/
def value? (s : Scan) (key : Key) : Option String := s.given.lookup key

/-- The count given for an option, or its default. -/
def count (s : Scan) (key : Key) (byDefault : UInt32) : UInt32 :=
  ((s.value? key).bind count?).getD byDefault

/-- The number of times an option was given. -/
def times (s : Scan) (key : Key) : Nat := (s.given.filter (·.1 = key)).length

/-- The word a command is about. -/
def subject (s : Scan) : Except Usage String :=
  match s.words with
  | w :: _ => .ok w
  | [] => .error (.invalid "a workload is required")

end Scan

/-! ### Commands -/

inductive Command where
  | run (workload : String) (iterations rounds : UInt32) (trace json : Bool)
  | disasm (workload : String) (iterations : UInt32)
  | sites (workload : String) (iterations : UInt32) (json : Bool)
  | config
  | list
  deriving DecidableEq

structure Invocation where
  configFile : Option String
  verbosity : Nat
  command : Command
  deriving DecidableEq

/-- What may follow a command, if there is a command of that name. -/
def grammar? : String → Option Grammar
  | "run" => some { opts := iterations :: rounds :: trace :: json :: globals, words := 1 }
  | "disasm" => some { opts := iterations :: globals, words := 1 }
  | "sites" => some { opts := iterations :: json :: globals, words := 1 }
  | "config" => some { opts := globals }
  | "list" => some { opts := globals }
  | _ => none

/-- The command with the given name, from what was scanned after it. -/
def command (name : String) (s : Scan) : Except Usage Command := do
  match name with
  | "run" =>
    return .run (← s.subject) (s.count .iterations 1000) (s.count .rounds 1) (s.has .trace)
      (s.has .json)
  | "disasm" => return .disasm (← s.subject) (s.count .iterations 100)
  | "sites" => return .sites (← s.subject) (s.count .iterations 1000) (s.has .json)
  | "config" => return .config
  | "list" => return .list
  | _ => .error (.invalid ("unrecognized command '" ++ name ++ "'"))

/-- Help about a command, or about all of them. -/
def helpOn : List String → Usage
  | [] => .help
  | [name] => if (grammar? name).isSome || name = "help" then .help else .invalid "no such command"
  | _ => .invalid "unexpected argument"

/-- What the arguments ask for. What stands before the command is settled last, so a request for
help after the command comes first. -/
def parse (args : List String) : Except Usage Invocation := do
  let (before, name, rest) ← ({} : Scan).toCommand args
  if name = "help" then throw (helpOn rest)
  match grammar? name with
  | none => throw (.invalid ("unrecognized command '" ++ name ++ "'"))
  | some g =>
    let after ← ({} : Scan).run g rest
    let command ← command name after
    let before ← before.settle
    return {
      configFile := (after.value? .config).or (before.value? .config)
      verbosity := (if after.has .verbose then after else before).times .verbose
      command }

end AdaptiveVM.CommandLine
