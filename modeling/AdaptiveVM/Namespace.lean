import AdaptiveVM.Token
import AdaptiveVM.Value

/-!
Namespaces: names bound to values, in slots that never move.

A name gets the slot after the last one when it is bound for the first time, and keeps it
until it is removed; the slot of a removed name stays empty for good. The keys version stands
for the set of bound names: whoever adds or removes a name gives the namespace a fresh one,
and giving a bound name a new value keeps it. A cached slot is therefore good for as long as
the version is the same.
-/

namespace AdaptiveVM

/-- A slot: the name it was made for, and its value unless the name has been removed. -/
structure Slot where
  key : String
  value : Option Value

structure Namespace where
  slots : Array Slot := #[]
  /-- The slot of every bound name. -/
  index : List (String × Nat) := []
  keysVersion : Token := 0

namespace Namespace

instance : Inhabited Namespace := ⟨{}⟩

/-- The slot of a bound name. -/
def indexOf? (ns : Namespace) (key : String) : Option Nat := ns.index.lookup key

/-- The value in a slot; nothing if the slot is empty or there is none. -/
def valueAt? (ns : Namespace) (i : Nat) : Option Value := ns.slots[i]?.bind Slot.value

def get? (ns : Namespace) (key : String) : Option Value := (ns.indexOf? key).bind ns.valueAt?

def contains (ns : Namespace) (key : String) : Bool := (ns.indexOf? key).isSome

/-- How many names are bound. -/
def size (ns : Namespace) : Nat := ns.index.length

def isEmpty (ns : Namespace) : Bool := ns.index.isEmpty

/-- The bound names with their values, in slot order. -/
def bindings (ns : Namespace) : List (String × Value) :=
  ns.slots.toList.filterMap fun s => s.value.map fun v => (s.key, v)

/-- A new value in the slot of a bound name. -/
def rebind (ns : Namespace) (i : Nat) (value : Value) : Namespace :=
  { ns with slots := ns.slots.modify i fun s => { s with value := some value } }

/-- A name that was not bound, in a slot of its own. -/
def append (ns : Namespace) (key : String) (value : Value) (version : Token) : Namespace :=
  let i := ns.slots.size
  { slots := ns.slots.push ⟨key, some value⟩
    index := (key, i) :: ns.index
    keysVersion := version }

/-- Removes a bound name from its slot. -/
def vacate (ns : Namespace) (key : String) (i : Nat) (version : Token) : Namespace :=
  { slots := ns.slots.modify i fun s => { s with value := none }
    index := ns.index.filter fun e => e.1 != key
    keysVersion := version }

/-- The bindings written out: quoted names, and values with their types. -/
def debug (ns : Namespace) : String :=
  "\x7b" ++ ", ".intercalate (ns.bindings.map fun b => Text.quoted b.1 ++ ": " ++ b.2.debug) ++
    "\x7d"

end Namespace

end AdaptiveVM
