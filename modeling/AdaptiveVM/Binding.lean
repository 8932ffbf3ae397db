import AdaptiveVM.Heap

/-!
Arguments bound to parameters: the local slots a call starts with.
-/

namespace AdaptiveVM.Binding

/-- The local slots of a frame: the given values first, and then slots without a value. -/
def slots (count : Nat) (values : List Value) : Array (Option Value) :=
  ((values.take count).map some ++ List.replicate (count - values.length) none).toArray

/-- How many arguments a call must give at least. -/
def required (argcount defaults : Nat) : Nat := argcount - min defaults argcount

/-- How many arguments a call may give, in words. -/
def expected (argcount defaults : Nat) : String :=
  if required argcount defaults = argcount then toString argcount
  else toString (required argcount defaults) ++ " to " ++ toString argcount

/-- The local slots for a call. Defaults stand for the last parameters: an argument that is left
out takes the default as far from the end. -/
def bind (name : String) (argcount nlocals : Nat) (defaults args : List Value) :
    Except Fault (Array (Option Value)) :=
  if argcount < args.length ∨ args.length < required argcount defaults.length then
    .error (.arityMismatch name (expected argcount defaults.length) args.length)
  else
    let left := defaults.length - (argcount - args.length)
    .ok (slots nlocals (args ++ defaults.drop left))

end AdaptiveVM.Binding
