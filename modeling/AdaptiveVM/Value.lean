import AdaptiveVM.Decimal.Positional
import AdaptiveVM.Text.Quoted

/-!
Values of the running program.

Scalars are themselves; everything else is a reference to an object of the heap. A reference
carries the name its object is shown under, so that a value can be written out without the
heap. Scalars compare by what they are, references by which object they name.
-/

namespace AdaptiveVM

/-- The kinds of heap object. -/
inductive HeapKind where
  | function
  | builtin
  | cls
  | inst
  | mod
  deriving DecidableEq

/-- A reference to a heap object: its place in the table of its kind, and the name it is shown
under. -/
structure Ref (κ : HeapKind) where
  id : Nat
  name : String
  deriving DecidableEq

inductive Value where
  | none
  | bool (b : Bool)
  | int (n : Int64)
  /-- There is one not-a-number: its sign and payload are not kept. -/
  | float (x : Float)
  | str (s : String)
  | function (r : Ref .function)
  | builtin (r : Ref .builtin)
  | cls (r : Ref .cls)
  | inst (r : Ref .inst)
  | mod (r : Ref .mod)

namespace Value

instance : Inhabited Value := ⟨.none⟩

/-- The name of a value's type, as error messages give it. -/
def typeName : Value → String
  | .none => "none"
  | .bool _ => "bool"
  | .int _ => "int"
  | .float _ => "float"
  | .str _ => "str"
  | .function _ => "function"
  | .builtin _ => "builtin"
  | .cls _ => "class"
  | .inst _ => "instance"
  | .mod _ => "module"

/-- Whether a conditional jump takes the value for true. Zeros, the empty text, not-a-number and
the absent value are not. -/
def isTruthy : Value → Bool
  | .none => false
  | .bool b => b
  | .int n => n != 0
  | .float x => x != 0.0 && !x.isNaN
  | .str s => !s.isEmpty
  | _ => true

def asInt? : Value → Option Int64
  | .int n => some n
  | _ => Option.none

/-- Equality as the program sees it: a float equals a float of the same size (so not-a-number
equals nothing), an object only itself, and values of different types are never equal. -/
def equal : Value → Value → Bool
  | .none, .none => true
  | .bool a, .bool b => a == b
  | .int a, .int b => a == b
  | .float a, .float b => a == b
  | .str a, .str b => a == b
  | .function a, .function b => a.id == b.id
  | .builtin a, .builtin b => a.id == b.id
  | .cls a, .cls b => a.id == b.id
  | .inst a, .inst b => a.id == b.id
  | .mod a, .mod b => a.id == b.id
  | _, _ => false

instance : BEq Value := ⟨equal⟩

/-- No program can tell the values apart. Unlike `equal` this separates the two zeros, and a
not-a-number is the same as any other, since their bits are read as the same. -/
def indistinguishable : Value → Value → Bool
  | .float a, .float b => a.toBits == b.toBits
  | a, b => a.equal b

/-- The value written out for a reader. -/
def display : Value → String
  | .none => "None"
  | .bool true => "True"
  | .bool false => "False"
  | .int n => toString n.toInt
  | .float x => Decimal.pointed x
  | .str s => Text.quoted s
  | .function r => "<function " ++ r.name ++ ">"
  | .builtin r => "<builtin " ++ r.name ++ ">"
  | .cls r => "<class " ++ r.name ++ ">"
  | .inst r => "<" ++ r.name ++ " instance>"
  | .mod r => "<module " ++ r.name ++ ">"

/-- The value written out with its type where the text alone would not show it. -/
def debug : Value → String
  | .int n => "Int(" ++ toString n.toInt ++ ")"
  | .float x => "Float(" ++ Decimal.plain x ++ ")"
  | .bool b => "Bool(" ++ (if b then "true" else "false") ++ ")"
  | v => v.display

end Value

end AdaptiveVM
