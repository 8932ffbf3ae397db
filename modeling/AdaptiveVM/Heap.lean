import AdaptiveVM.Code
import AdaptiveVM.Error
import AdaptiveVM.Namespace
import AdaptiveVM.Random.Operand
import AdaptiveVM.Shape

/-!
The heap: all objects of a program, in one table per kind, and the sources of their tokens.

Objects are only ever added. A namespace belongs to a module or to a class; the reference of a
module is the place of its namespace. Tokens are drawn in the order in which the operations
here take effect: a class takes a keys version and then a shape, a new key a keys version.
-/

namespace AdaptiveVM

/-- A function: its code, the module it looks its globals up in, and the values of trailing
parameters that a call leaves out. -/
structure Function where
  unit : Nat := 0
  globals : Ref .mod := ⟨0, ""⟩
  defaults : List Value := []
  version : Token := 0

instance : Inhabited Function := ⟨{}⟩

/-- What a builtin does: compute its answer from its arguments, or take the next operand of a
stream. A computation sees its arguments and nothing else: it can neither look into the heap nor
change it, so builtins that read or write objects are left out. -/
inductive Procedure where
  | compute (f : List Value → Except Error Value)
  | draw (source : Nat)

/-- A builtin: how many arguments it takes (any number, if it does not say), its identity, and
what it does. -/
structure Builtin where
  arity : Option UInt8 := none
  id : Token := 0
  procedure : Procedure := .compute fun _ => .ok .none

instance : Inhabited Builtin := ⟨{}⟩

structure Heap where
  tokens : Tokens := {}
  namespaces : Array Namespace := #[]
  shapes : Array Shape := #[]
  classes : Array Class := #[]
  instances : Array Instance := #[]
  functions : Array Function := #[]
  builtins : Array Builtin := #[]
  sources : Array Random.Source := #[]
  units : Array CodeUnit := #[]

namespace Heap

instance : Inhabited Heap := ⟨{}⟩

/-! ### Looking things up -/

def namespaceAt (h : Heap) (n : Nat) : Namespace := h.namespaces.getD n default

def shapeAt (h : Heap) (s : Nat) : Shape := h.shapes.getD s default

def classAt (h : Heap) (c : Ref .cls) : Class := h.classes.getD c.id default

def instanceAt (h : Heap) (o : Ref .inst) : Instance := h.instances.getD o.id default

def functionAt (h : Heap) (f : Ref .function) : Function := h.functions.getD f.id default

def builtinAt (h : Heap) (b : Ref .builtin) : Builtin := h.builtins.getD b.id default

def unitAt (h : Heap) (u : Nat) : CodeUnit := h.units.getD u default

/-- The attributes of a class. -/
def attributesOf (h : Heap) (c : Ref .cls) : Namespace := h.namespaceAt (h.classAt c).attributes

/-- The shape of an instance. -/
def shapeOf (h : Heap) (o : Ref .inst) : Shape := h.shapeAt (h.instanceAt o).shape

/-! ### Namespaces -/

/-- The keys version for a key set that has not been seen before. -/
def freshKeys (h : Heap) : Token × Heap :=
  let (t, keys) := h.tokens.keys.draw
  (t, { h with tokens := { h.tokens with keys } })

/-- An empty namespace. -/
def newNamespace (h : Heap) : Nat × Heap :=
  let (t, h) := h.freshKeys
  (h.namespaces.size, { h with namespaces := h.namespaces.push { keysVersion := t } })

/-- Binds a name in a namespace. Only a new name changes the keys version. -/
def assign (h : Heap) (n : Nat) (key : String) (value : Value) : Heap :=
  match (h.namespaceAt n).indexOf? key with
  | some i => { h with namespaces := h.namespaces.modify n (·.rebind i value) }
  | none =>
    let (t, h) := h.freshKeys
    { h with namespaces := h.namespaces.modify n (·.append key value t) }

/-- Removes a name from a namespace, and gives the value it had. -/
def remove (h : Heap) (n : Nat) (key : String) : Option Value × Heap :=
  match (h.namespaceAt n).indexOf? key with
  | none => (none, h)
  | some i =>
    let removed := (h.namespaceAt n).valueAt? i
    let (t, h) := h.freshKeys
    (removed, { h with namespaces := h.namespaces.modify n (·.vacate key i t) })

/-! ### Modules, classes and instances -/

def newModule (h : Heap) (name : String) : Ref .mod × Heap :=
  let (n, h) := h.newNamespace
  (⟨n, name⟩, h)

/-- A shape with the given fields that nothing leads to yet. -/
def newShape (h : Heap) (keys : Array String) : Nat × Heap :=
  let (id, shapes) := h.tokens.shapes.draw
  (h.shapes.size,
    { h with tokens := { h.tokens with shapes }, shapes := h.shapes.push { id, keys } })

/-- The shape reached by appending a field: the one reached before, if there is one. Nothing
follows a shape that is not in the table. -/
def extendShape (h : Heap) (s : Nat) (key : String) : Nat × Heap :=
  match (h.shapeAt s).next? key with
  | some next => (next, h)
  | none =>
    if s < h.shapes.size then
      let (next, h) := h.newShape ((h.shapeAt s).keys.push key)
      (next,
        { h with
          shapes := h.shapes.modify s fun shape =>
            { shape with transitions := (key, next) :: shape.transitions } })
    else (s, h)

def newClass (h : Heap) (name : String) : Ref .cls × Heap :=
  let (attributes, h) := h.newNamespace
  let (root, h) := h.newShape #[]
  (⟨h.classes.size, name⟩, { h with classes := h.classes.push { attributes, root } })

/-- An instance without fields. It is shown under the name of its class. -/
def instantiate (h : Heap) (c : Ref .cls) : Ref .inst × Heap :=
  let shape := (h.classAt c).root
  (⟨h.instances.size, c.name⟩, { h with instances := h.instances.push { cls := c, shape } })

/-- A field of an instance by name. -/
def field? (h : Heap) (o : Ref .inst) (key : String) : Option Value :=
  ((h.shapeOf o).indexOf? key).bind fun i => (h.instanceAt o).fields[i]?

/-- A field of an instance by position. -/
def fieldAt? (h : Heap) (o : Ref .inst) (i : Nat) : Option Value := (h.instanceAt o).fields[i]?

/-- A field of an instance by position, provided that the instance has the given shape. -/
def fieldIfShape? (h : Heap) (o : Ref .inst) (shape : Token) (i : Nat) : Option Value :=
  if (h.shapeOf o).id = shape then h.fieldAt? o i else none

/-- Stores a field. A new field moves the instance on to the next shape. -/
def setField (h : Heap) (o : Ref .inst) (key : String) (value : Value) : Heap :=
  match (h.shapeOf o).indexOf? key with
  | some i => { h with instances := h.instances.modify o.id (·.put i value) }
  | none =>
    let (next, h) := h.extendShape (h.instanceAt o).shape key
    { h with instances := h.instances.modify o.id (·.grow next value) }

/-! ### Functions, builtins and code -/

def newUnit (h : Heap) (u : CodeUnit) : Nat × Heap :=
  (h.units.size, { h with units := h.units.push u })

/-- A function, shown under the name of its code. -/
def newFunction (h : Heap) (unit : Nat) (globals : Ref .mod) (defaults : List Value) :
    Ref .function × Heap :=
  let (version, functions) := h.tokens.functions.draw
  (⟨h.functions.size, (h.unitAt unit).name⟩,
    { h with
      tokens := { h.tokens with functions }
      functions := h.functions.push { unit, globals, defaults, version } })

def newBuiltin (h : Heap) (name : String) (arity : Option UInt8) (procedure : Procedure) :
    Ref .builtin × Heap :=
  let (id, builtins) := h.tokens.builtins.draw
  (⟨h.builtins.size, name⟩,
    { h with
      tokens := { h.tokens with builtins }
      builtins := h.builtins.push { arity, id, procedure } })

def newSource (h : Heap) (s : Random.Source) : Nat × Heap :=
  (h.sources.size, { h with sources := h.sources.push s })

/-- Carries out a procedure. -/
def perform (h : Heap) (p : Procedure) (args : List Value) : Except Error Value × Heap :=
  match p with
  | .compute f => (f args, h)
  | .draw source =>
    let (v, s) := (h.sources.getD source default).draw
    (.ok v, { h with sources := h.sources.setIfInBounds source s })

/-- Calls a builtin, provided that it takes that many arguments. -/
def invoke (h : Heap) (b : Ref .builtin) (args : List Value) : Except Error Value × Heap :=
  let fn := h.builtinAt b
  match fn.arity with
  | none => h.perform fn.procedure args
  | some arity =>
    if args.length = arity.toNat then h.perform fn.procedure args
    else (.error (.ofFault (.arityMismatch b.name (toString arity.toNat) args.length)), h)

end Heap

end AdaptiveVM
