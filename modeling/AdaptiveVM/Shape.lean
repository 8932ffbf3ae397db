import AdaptiveVM.Token
import AdaptiveVM.Value

/-!
Shapes: which fields an instance has, and where.

An instance keeps its fields by position and shares the description of the positions, its
shape, with every instance that was built the same way. A shape remembers the shapes reached
from it by one more field, so that the same steps always lead to the same shape.
-/

namespace AdaptiveVM

structure Shape where
  id : Token := 0
  /-- The field names, by position. -/
  keys : Array String := #[]
  /-- The shapes one field further on, as places in the table of shapes. -/
  transitions : List (String × Nat) := []

namespace Shape

instance : Inhabited Shape := ⟨{}⟩

/-- The position of a field. -/
def indexOf? (s : Shape) (key : String) : Option Nat := s.keys.findIdx? (· == key)

/-- The shape one field further on, if an instance has gone there before. -/
def next? (s : Shape) (key : String) : Option Nat := s.transitions.lookup key

end Shape

/-- A class: the namespace of its attributes, and the shape of an instance without fields. -/
structure Class where
  attributes : Nat := 0
  root : Nat := 0

instance : Inhabited Class := ⟨{}⟩

/-- An instance: its class, its shape, and the values of its fields by position. -/
structure Instance where
  cls : Ref .cls := ⟨0, ""⟩
  shape : Nat := 0
  fields : Array Value := #[]

instance : Inhabited Instance := ⟨{}⟩

/-- A new value for a field. -/
def Instance.put (o : Instance) (i : Nat) (value : Value) : Instance :=
  { o with fields := o.fields.setIfInBounds i value }

/-- A field more, and the shape that describes it. -/
def Instance.grow (o : Instance) (shape : Nat) (value : Value) : Instance :=
  { o with shape, fields := o.fields.push value }

end AdaptiveVM
