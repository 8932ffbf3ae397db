import AdaptiveVM.Heap

/-!
The meaning of the instructions that compute or look something up, whatever stands at the
site. A specialized instruction must give the same answers; where its guard holds it calls the
narrow functions here (`addInts`, `addFloats`, `concat`), so both ways share one definition.
-/

namespace AdaptiveVM.Operation

/-- An exact result, if it fits the integers. -/
def fit? (n : Int) : Option Int64 :=
  if Int64.minValue.toInt ≤ n ∧ n ≤ Int64.maxValue.toInt then some (Int64.ofInt n) else none

def addInts (a b : Int64) : Except Fault Value :=
  match fit? (a.toInt + b.toInt) with
  | some n => .ok (.int n)
  | none => .error .addOverflow

def addFloats (a b : Float) : Value := .float (a + b)

def concat (a b : String) : Value := .str (a ++ b)

/-- Addition: integers are checked, an integer beside a float is rounded to one, texts are
joined. -/
def add (left right : Value) : Except Fault Value :=
  match left, right with
  | .int a, .int b => addInts a b
  | .float a, .float b => .ok (addFloats a b)
  | .int a, .float b => .ok (addFloats a.toFloat b)
  | .float a, .int b => .ok (addFloats a b.toFloat)
  | .str a, .str b => .ok (concat a b)
  | _, _ => .error (.unsupportedOperands "+" left.typeName right.typeName)

def sub (left right : Value) : Except Fault Value :=
  match left, right with
  | .int a, .int b =>
    match fit? (a.toInt - b.toInt) with
    | some n => .ok (.int n)
    | none => .error .subOverflow
  | .float a, .float b => .ok (.float (a - b))
  | .int a, .float b => .ok (.float (a.toFloat - b))
  | .float a, .int b => .ok (.float (a - b.toFloat))
  | _, _ => .error (.unsupportedOperands "-" left.typeName right.typeName)

/-- Comparison: numbers by size, texts by their characters. -/
def less (left right : Value) : Except Fault Bool :=
  match left, right with
  | .int a, .int b => .ok (a < b)
  | .float a, .float b => .ok (a < b)
  | .int a, .float b => .ok (a.toFloat < b)
  | .float a, .int b => .ok (a < b.toFloat)
  | .str a, .str b => .ok (a < b)
  | _, _ => .error (.unsupportedOperands "<" left.typeName right.typeName)

def lessThan (left right : Value) : Except Fault Value := (less left right).map .bool

/-- A global: the module's own name, or else the builtin of that name. -/
def loadGlobal (globals builtins : Namespace) (name : String) : Except Fault Value :=
  match globals.get? name with
  | some v => .ok v
  | none =>
    match builtins.get? name with
    | some v => .ok v
    | none => .error (.notDefined name)

/-- What a receiver has under a name. The fields of an instance hide the attributes of its
class. -/
def attribute? (h : Heap) (receiver : Value) (name : String) : Option Value :=
  match receiver with
  | .inst o =>
    match h.field? o name with
    | some v => some v
    | none => (h.attributesOf (h.instanceAt o).cls).get? name
  | .cls c => (h.attributesOf c).get? name
  | .mod m => (h.namespaceAt m.id).get? name
  | _ => none

def loadAttr (h : Heap) (receiver : Value) (name : String) : Except Fault Value :=
  match attribute? h receiver name with
  | some v => .ok v
  | none => .error (.noAttribute receiver.typeName name)

/-- The receiver takes attributes. -/
def isWritable : Value → Bool
  | .inst _ | .cls _ | .mod _ => true
  | _ => false

/-- Gives a receiver an attribute; a receiver that takes none is left alone. -/
def putAttr (h : Heap) (receiver : Value) (name : String) (value : Value) : Heap :=
  match receiver with
  | .inst o => h.setField o name value
  | .cls c => h.assign (h.classAt c).attributes name value
  | .mod m => h.assign m.id name value
  | _ => h

end AdaptiveVM.Operation
