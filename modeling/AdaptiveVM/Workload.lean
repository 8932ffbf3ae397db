import AdaptiveVM.Assembler
import AdaptiveVM.Operation
import AdaptiveVM.World

/-!
Workloads: canned programs, each with the value that its first run returns.

A program is a top-level unit and the module it runs against. Each one exercises one way of
adapting: a stable call, a global that is hidden halfway, operands that alternate, attributes of
all kinds, recursion, and a mixed stream of operands.
-/

namespace AdaptiveVM

structure Workload where
  name : String
  description : String
  unit : Nat
  globals : Ref .mod
  /-- What the first run returns. -/
  expected : Value

namespace Workload

open Assembler (Line)

/-- Building a workload adds objects to a world, also when it fails in the end. -/
abbrev Build := ExceptT Error (StateM World)

namespace Build

/-- Changes the heap. -/
def onHeap {α : Type} (f : Heap → α × Heap) : Build α := do
  let w ← get
  let (x, heap) := f w.heap
  set { w with heap }
  return x

def newModule (name : String) : Build (Ref .mod) := onHeap (·.newModule name)

def assign (n : Nat) (key : String) (value : Value) : Build Unit :=
  onHeap fun h => ((), h.assign n key value)

/-- Assembles a unit. -/
def code (name : String) (params locals : UInt8) (lines : List Line) : Build Nat := do
  match Assembler.assemble name params locals lines with
  | .error e => throw (.code e)
  | .ok u =>
    let (id, w) := (← get).newUnit u
    set w
    return id

/-- Assembles a function and binds it in a module under its name. -/
def define (m : Ref .mod) (name : String) (params : UInt8) (lines : List Line) : Build Unit := do
  let u ← code name params 0 lines
  let f ← onHeap (·.newFunction u m [])
  assign m.id name (.function f)

end Build

open Build

/-- Repeats a body for a counter from `0` up to `n`. `start` is where the loop begins. -/
def countedLoop (start : Nat) (counter : UInt8) (n : Int64) (body : List Line) : List Line :=
  [.const (.int 0), .op .storeFast counter,
   .op .loadFast counter, .const (.int n), .op .compareLt 0,
   .op .jumpIfFalse (start + body.length + 11).toUInt8] ++
    body ++
    [.op .loadFast counter, .const (.int 1), .op .binaryAdd 0, .op .storeFast counter,
     .op .jump (start + 2).toUInt8]

/-- The integer with a value, unless it is too large to be one. -/
def result? (workload : String) (iterations : Int64) (value : Int) : Except ConfigFault Value :=
  match Operation.fit? value with
  | some n => .ok (.int n)
  | none => .error (.tooManyIterations workload iterations)

/-- The expected value, or the end of the build. -/
def expect (v : Except ConfigFault Value) : Build Value :=
  match v with
  | .ok v => return v
  | .error e => throw (.config e)

/-! ### A stable call -/

namespace CallSite

/-- The sum of two parameters. -/
def add : List Line :=
  [.op .loadFast 0, .op .loadFast 1, .op .binaryAdd 0, .op .ret 0]

/-- A total to which the counter is added by a call. -/
def program (n : Int64) : List Line :=
  [.const (.int 0), .op .storeFast 1] ++
    countedLoop 2 0 n
      [.name .loadGlobal "add", .op .loadFast 1, .op .loadFast 0, .op .call 2,
       .op .storeFast 1] ++
    [.op .loadFast 1, .op .ret 0]

/-- The sum of all integers from `0` to below `n`. -/
def total (n : Int64) : Int :=
  let n := max n.toInt 0
  n * max (n - 1) 0 / 2

end CallSite

def callSite (n : Int64) : Build Workload := do
  let globals ← newModule "call_site"
  define globals "add" 2 CallSite.add
  let unit ← code "<call_site>" 0 2 (CallSite.program n)
  let expected ← expect (result? "call_site" (max n 0) (CallSite.total n))
  return {
    name := "call_site"
    description := "one call site calling the same function every iteration"
    unit
    globals
    expected }

/-! ### A global hidden halfway -/

namespace ShadowedGlobal

/-- The iterations before the module hides the builtin. -/
def stableRuns : Int64 := 50

/-- Returns what `abs` is. -/
def probe : List Line := [.name .loadGlobal "abs", .op .ret 0]

/-- Calls the probe, having bound `abs` in the module first once the counter is high enough. -/
def program (n : Int64) : List Line :=
  countedLoop 0 0 n
      [.op .loadFast 0, .const (.int stableRuns), .op .compareLt 0, .op .jumpIfFalse 11,
       .op .jump 13, .const (.int 99), .name .storeGlobal "abs", .name .loadGlobal "probe",
       .op .call 0, .op .storeFast 1] ++
    [.op .loadFast 1, .op .ret 0]

end ShadowedGlobal

def shadowedGlobal (n : Int64) : Build Workload := do
  let globals ← newModule "shadowed_global"
  define globals "probe" 0 ShadowedGlobal.probe
  let n := max n (ShadowedGlobal.stableRuns + 1)
  let unit ← code "<shadowed_global>" 0 2 (ShadowedGlobal.program n)
  return {
    name := "shadowed_global"
    description := "builtin global shadowed by a module binding mid-run"
    unit
    globals
    expected := .int 99 }

/-! ### Alternating operands -/

namespace AlternatingAdd

/-- Adds a value to itself, where an integer and a text take turns. -/
def program (n : Int64) : List Line :=
  [.const (.int 1), .op .storeFast 1, .const (.str "s"), .op .storeFast 2, .const .none,
   .op .storeFast 4] ++
    countedLoop 6 0 n
      [.op .loadFast 1, .op .dup 0, .op .binaryAdd 0, .op .storeFast 4, .op .loadFast 1,
       .op .storeFast 3, .op .loadFast 2, .op .storeFast 1, .op .loadFast 3, .op .storeFast 2] ++
    [.op .loadFast 4, .op .ret 0]

def expected (n : Int64) : Value :=
  if n ≤ 0 then .none else if n % 2 = 1 then .int 2 else .str "ss"

end AlternatingAdd

def alternatingAdd (n : Int64) : Build Workload := do
  let globals ← newModule "alternating_add"
  let unit ← code "<alternating_add>" 0 5 (AlternatingAdd.program n)
  return {
    name := "alternating_add"
    description := "an add site alternating between int and str operands"
    unit
    globals
    expected := AlternatingAdd.expected n }

/-! ### Attributes -/

namespace Attributes

/-- Adds up two fields of an instance, an attribute of its class and one of a module. -/
def program (n : Int64) : List Line :=
  [.name .loadGlobal "Point", .op .call 0, .op .storeFast 2,
   .const (.int 1), .op .loadFast 2, .name .storeAttr "x",
   .const (.int 2), .op .loadFast 2, .name .storeAttr "y",
   .const (.int 0), .op .storeFast 1] ++
    countedLoop 11 0 n
      [.op .loadFast 1,
       .op .loadFast 2, .name .loadAttr "x", .op .binaryAdd 0,
       .op .loadFast 2, .name .loadAttr "y", .op .binaryAdd 0,
       .op .loadFast 2, .name .loadAttr "scale", .op .binaryAdd 0,
       .name .loadGlobal "config", .name .loadAttr "step", .op .binaryAdd 0,
       .op .storeFast 1] ++
    [.op .loadFast 1, .op .ret 0]

end Attributes

def attributes (n : Int64) : Build Workload := do
  let globals ← newModule "attributes"
  let point ← onHeap (·.newClass "Point")
  onHeap fun h => ((), h.assign (h.classAt point).attributes "scale" (.int 3))
  assign globals.id "Point" (.cls point)
  let config ← newModule "config"
  assign config.id "step" (.int 1)
  assign globals.id "config" (.mod config)
  let unit ← code "<attributes>" 0 3 (Attributes.program n)
  let expected ← expect (result? "attributes" n (7 * max n.toInt 0))
  return {
    name := "attributes"
    description := "instance, class and module attribute loads"
    unit
    globals
    expected }

/-! ### Recursion -/

namespace Recursion

/-- The largest argument. -/
def maxArgument : Int64 := 25

/-- The Fibonacci numbers by their two recursive calls. -/
def fib : List Line :=
  [.op .loadFast 0, .const (.int 2), .op .compareLt 0, .op .jumpIfFalse 6,
   .op .loadFast 0, .op .ret 0,
   .name .loadGlobal "fib", .op .loadFast 0, .const (.int 1), .op .binarySub 0, .op .call 1,
   .name .loadGlobal "fib", .op .loadFast 0, .const (.int 2), .op .binarySub 0, .op .call 1,
   .op .binaryAdd 0, .op .ret 0]

def program (n : Int64) : List Line :=
  [.name .loadGlobal "fib", .const (.int n), .op .call 1, .op .ret 0]

/-- The `k`-th Fibonacci number and the one after it. -/
def fibPair : Nat → Int64 × Int64
  | 0 => (0, 1)
  | k + 1 =>
    let (a, b) := fibPair k
    (b, a + b)

/-- The argument, brought into range. -/
def argument (n : Int64) : Int64 := if n < 0 then 0 else if maxArgument < n then maxArgument else n

end Recursion

def recursion (n : Int64) : Build Workload := do
  let n := Recursion.argument n
  let globals ← newModule "recursion"
  define globals "fib" 1 Recursion.fib
  let unit ← code "<recursion>" 0 0 (Recursion.program n)
  return {
    name := "recursion"
    description := "recursive calls sharing one quickened unit"
    unit
    globals
    expected := .int (Recursion.fibPair n.toInt.toNat).1 }

/-! ### A stream of operands -/

namespace Polymorphic

/-- Takes an operand and adds it to itself. -/
def program (n : Int64) : List Line :=
  [.const .none, .op .storeFast 1] ++
    countedLoop 2 0 n
      [.name .loadGlobal "operand", .op .call 0, .op .dup 0, .op .binaryAdd 0,
       .op .storeFast 1] ++
    [.op .loadFast 1, .op .ret 0]

/-- The double of the last of `n` operands, or the value given if there is none. -/
def replay (source : Random.Source) (last : Value) : Nat → Except Fault Value
  | 0 => .ok last
  | n + 1 =>
    let (x, source) := source.draw
    match Operation.add x x with
    | .ok v => replay source v n
    | .error e => .error e

end Polymorphic

/-- The workload over any stream of operands. -/
def polymorphicOn (n : Int64) (source : Random.Source) : Build Workload := do
  let globals ← newModule "polymorphic"
  let id ← onHeap (·.newSource source)
  let operand ← onHeap (·.newBuiltin "operand" (some 0) (.draw id))
  assign globals.id "operand" (.builtin operand)
  let unit ← code "<polymorphic>" 0 2 (Polymorphic.program n)
  match Polymorphic.replay source .none n.toInt.toNat with
  | .error e => throw (.ofFault e)
  | .ok expected =>
    return {
      name := "polymorphic"
      description := "an add site with a seeded mix of int, float and str operands"
      unit
      globals
      expected }

def polymorphic (n : Int64) (seed : UInt64) : Build Workload := polymorphicOn n (.ofSeed seed)

/-- The seed when none is given. -/
def defaultSeed : UInt64 := 0x5eed

/-! ### By name -/

/-- The names, in the order in which they are listed. -/
def names : List String :=
  ["call_site", "shadowed_global", "alternating_add", "attributes", "recursion", "polymorphic"]

def byName (name : String) (iterations : UInt32) : Build Workload :=
  let n := Int64.ofNat iterations.toNat
  match name with
  | "call_site" => callSite n
  | "shadowed_global" => shadowedGlobal n
  | "alternating_add" => alternatingAdd n
  | "attributes" => attributes n
  | "recursion" => recursion n
  | "polymorphic" => polymorphic n defaultSeed
  | other => throw (.config (.unknownWorkload other names))

/-- Builds a workload in a world. -/
def Build.on {α : Type} (b : Build α) (w : World) : Except Error α × World := b.run.run w

end Workload

end AdaptiveVM
