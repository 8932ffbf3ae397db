import AdaptiveVM.Operation

/-!
The builtins every machine starts with, bound in a module that global lookups fall back to.
-/

namespace AdaptiveVM.Builtins

/-- The error of a builtin whose arguments do not reach as far as it reads. -/
def missing (name : String) : Except Error Value := .error (.code (.missingArgument name))

def fault (cause : Fault) : Except Error Value := .error (.ofFault cause)

/-- The size of a number. The smallest integer has none. -/
def abs : List Value → Except Error Value
  | .int n :: _ => if n = Int64.minValue then fault .absOverflow else .ok (.int n.abs)
  | .float x :: _ => .ok (.float x.abs)
  | v :: _ => fault (.noAbs v.typeName)
  | [] => missing "abs"

/-- Of two values, the first if `keep` says so of "the first is less", else the second. -/
def pick (name : String) (keep : Bool → Bool) : List Value → Except Error Value
  | a :: b :: _ =>
    match Operation.less a b with
    | .ok less => .ok (if keep less then a else b)
    | .error _ => fault (.incomparable name a.typeName b.typeName)
  | _ => missing name

/-- The number of characters of a text. -/
def len : List Value → Except Error Value
  | .str s :: _ => .ok (.int (Int64.ofNat s.length))
  | v :: _ => fault (.noLength v.typeName)
  | [] => missing "len"

/-- A value written out; a text is itself. -/
def str : List Value → Except Error Value
  | .str s :: _ => .ok (.str s)
  | v :: _ => .ok (.str v.display)
  | [] => missing "str"

/-- The name of a value's type. -/
def type : List Value → Except Error Value
  | v :: _ => .ok (.str v.typeName)
  | [] => missing "type"

/-- The sum of numbers, from left to right, onto a total. -/
def sumOnto (total : Value) : List Value → Except Error Value
  | [] => .ok total
  | v :: rest =>
    match v with
    | .int _ | .float _ =>
      match Operation.add total v with
      | .ok total => sumOnto total rest
      | .error cause => fault cause
    | _ => fault (.unsupportedOperands "+" total.typeName v.typeName)

def sum (args : List Value) : Except Error Value := sumOnto (.int 0) args

/-- Names, numbers of arguments and bodies, in the order in which they are bound. -/
def table : List (String × Option UInt8 × (List Value → Except Error Value)) :=
  [("abs", some 1, abs),
   ("min", some 2, pick "min" id),
   ("max", some 2, pick "max" not),
   ("len", some 1, len),
   ("str", some 1, str),
   ("type", some 1, type),
   ("sum", none, sum)]

/-- Makes a builtin and binds it under its name. -/
def register (h : Heap) (m : Ref .mod) (name : String) (arity : Option UInt8)
    (f : List Value → Except Error Value) : Heap :=
  let (b, h) := h.newBuiltin name arity (.compute f)
  h.assign m.id name (.builtin b)

/-- A fresh module of builtins. -/
def install (h : Heap) : Ref .mod × Heap :=
  let (m, h) := h.newModule "builtins"
  (m, table.foldl (fun h e => register h m e.1 e.2.1 e.2.2) h)

end AdaptiveVM.Builtins
