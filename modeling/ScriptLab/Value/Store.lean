import ScriptLab.Entries
import ScriptLab.Value.Basic

/-!
# Stores

A store holds the arrays, objects, functions and scopes that exist. Each has a place, counted from
zero in the order in which they came to be.
-/

namespace ScriptLab

/-- The bindings of one scope. -/
abbrev Frame := Entries String Binding

/-- All that is shared. -/
structure Store where
  arrays : Array (Array Value) := #[]
  objects : Array (Entries String Value) := #[]
  callables : Array Callable := #[]
  frames : Array Frame := #[]
deriving Inhabited

namespace Store

/-! ## Arrays and objects -/

/-- The items of an array. -/
def items (s : Store) (id : Nat) : Array Value :=
  s.arrays.getD id #[]

/-- The entries of an object. -/
def entries (s : Store) (id : Nat) : Entries String Value :=
  s.objects.getD id []

/-- Adds an array. -/
def newArray (s : Store) (items : Array Value) : Value × Store :=
  (.arr s.arrays.size, { s with arrays := s.arrays.push items })

/-- Adds an object. -/
def newObject (s : Store) (entries : Entries String Value) : Value × Store :=
  (.obj s.objects.size, { s with objects := s.objects.push entries })

/-- Adds a function. -/
def newCallable (s : Store) (callable : Callable) : Value × Store :=
  (.fn s.callables.size, { s with callables := s.callables.push callable })

/-- Replaces an item of an array. -/
def setItem (s : Store) (id index : Nat) (value : Value) : Store :=
  { s with arrays := s.arrays.modify id fun items => items.setIfInBounds index value }

/-- Adds an item at the end of an array. -/
def pushItem (s : Store) (id : Nat) (value : Value) : Store :=
  { s with arrays := s.arrays.modify id fun items => items.push value }

/-- Replaces or adds an entry of an object. -/
def putEntry (s : Store) (id : Nat) (key : String) (value : Value) : Store :=
  { s with objects := s.objects.modify id fun entries => entries.put key value }

/-! ## Scopes -/

/-- The bindings of a scope. -/
def bindings (s : Store) (frame : Nat) : Frame :=
  s.frames.getD frame []

/-- Adds a scope. -/
def newFrame (s : Store) (bindings : Frame) : Nat × Store :=
  (s.frames.size, { s with frames := s.frames.push bindings })

/-- Binds a name in a scope. -/
def bind (s : Store) (frame : Nat) (name : String) (binding : Binding) : Store :=
  { s with frames := s.frames.modify frame fun bindings => bindings.put name binding }

/-- Drops all bindings of a scope. -/
def clearFrame (s : Store) (frame : Nat) : Store :=
  { s with frames := s.frames.setIfInBounds frame [] }

/-- A change at one place. -/
inductive Edit where
  | item (id index : Nat) (value : Value)
  | entry (id : Nat) (key : String) (value : Value)
  | binding (frame : Nat) (name : String) (binding : Binding)

/-- Makes a change. -/
def edit (s : Store) : Edit → Store
  | .item id index value => s.setItem id index value
  | .entry id key value => s.putEntry id key value
  | .binding frame name binding => s.bind frame name binding

/-- The first of some scopes that binds a name, and its binding. -/
def resolve? (s : Store) (name : String) : List Nat → Option (Nat × Binding)
  | [] => none
  | frame :: outer =>
    match (s.bindings frame).find? name with
    | some binding => some (frame, binding)
    | none => resolve? s name outer

end Store

end ScriptLab
