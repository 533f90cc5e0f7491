import ScriptLab.Json.Printer
import ScriptLab.Value.Store

/-!
# Renderings of values

A value is shown in the language's own form, as text, as JSON, or as output. Arrays and objects are
written out in full at each occurrence, except inside themselves. The recursion is bounded by the
number of arrays and objects in the store, since those being written are all different.
-/

namespace ScriptLab

/-- An array or an object by its place in a store. -/
inductive Container where
  | arr (id : Nat)
  | obj (id : Nat)
deriving DecidableEq

namespace Store

/-- The text of a function. -/
def callableText (s : Store) (id : Nat) : String :=
  match s.callables[id]? with
  | some (.closure params _ _) => "@(" ++ ", ".intercalate params ++ ") \x7b ... \x7d"
  | some (.builtin function) => "@" ++ function.name
  | none => "@"

/-- The form of the language, within the containers being written. -/
def reprWithin (s : Store) : Nat → List Container → Value → String
  | _, _, .null => "null"
  | _, _, .bool b => if b then "true" else "false"
  | _, _, .num x => Number.text x
  | _, _, .str t => "\"" ++ t ++ "\""
  | _, _, .fn id => s.callableText id
  | 0, _, .arr _ => "..."
  | 0, _, .obj _ => "..."
  | n + 1, around, .arr id =>
    if .arr id ∈ around then "..."
    else
      let items := (s.items id).toList.map (reprWithin s n (.arr id :: around))
      "[" ++ ", ".intercalate items ++ "]"
  | n + 1, around, .obj id =>
    if .obj id ∈ around then "..."
    else
      match s.entries id with
      | [] => "\x7b\x7d"
      | entries =>
        let items := entries.map fun entry =>
          entry.1 ++ ": " ++ reprWithin s n (.obj id :: around) entry.2
        "\x7b " ++ ", ".intercalate items ++ " \x7d"

/-- The JSON value, within the containers being written. -/
def jsonWithin (s : Store) : Nat → List Container → Value → Json
  | _, _, .null => .null
  | _, _, .bool b => .bool b
  | _, _, .num x => .ofNumber x
  | _, _, .str t => .str t
  | _, _, .fn _ => .str "<function>"
  | 0, _, .arr _ => .null
  | 0, _, .obj _ => .null
  | n + 1, around, .arr id =>
    if .arr id ∈ around then .null
    else .arr ((s.items id).toList.map (jsonWithin s n (.arr id :: around)))
  | n + 1, around, .obj id =>
    if .obj id ∈ around then .null
    else .obj ((s.entries id).map fun entry =>
      (entry.1, jsonWithin s n (.obj id :: around) entry.2))

/-- More containers than can be written one inside the other. -/
def nestingBound (s : Store) : Nat :=
  s.arrays.size + s.objects.size + 1

/-- The form of the language: strings in quotes, arrays and objects on one line, `...` for a
container inside itself. -/
def repr (s : Store) (v : Value) : String :=
  s.reprWithin s.nestingBound [] v

/-- The form of the language, with a string as it is. -/
def text (s : Store) : Value → String
  | .str t => t
  | v => s.repr v

/-- The JSON value: functions are `"<function>"`, a container inside itself is `null`. -/
def json (s : Store) (v : Value) : Json :=
  s.jsonWithin s.nestingBound [] v

/-- The text of an output: numbers as the language shows them, strings in quotes and not escaped,
all else as pretty JSON. -/
def output (s : Store) : Value → String
  | .num x => Number.text x
  | .str t => "\"" ++ t ++ "\""
  | v => (s.json v).pretty

/-- A value in all its renderings. -/
structure Description where
  type : String
  repr : String
  text : String
  json : String
  output : String

/-- Renders a value in every way. -/
def describe (s : Store) (v : Value) : Description :=
  { type := v.type.text, repr := s.repr v, text := s.text v, json := (s.json v).compact,
    output := s.output v }

end Store

end ScriptLab
