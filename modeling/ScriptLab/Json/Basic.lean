import ScriptLab.Number.Text

/-!
# JSON values

A JSON value as the program writes it. Numbers are whole numbers or doubles; the entries of an
object are in the order in which they are written.
-/

namespace ScriptLab

/-- A JSON value. -/
inductive Json where
  | null
  | bool (b : Bool)
  | int (i : Int)
  | real (x : Float)
  | str (s : String)
  | arr (items : List Json)
  | obj (entries : List (String × Json))

namespace Json

/-- The JSON value of a number: a whole number below `9 · 10 ^ 15` is an integer, and what has no
JSON text is `null`. -/
def ofNumber (x : Float) : Json :=
  match Number.wholeBelow? 9000000000000000 x with
  | some i => .int i
  | none => match Number.form x with
    | .finite .. => .real x
    | _ => .null

/-- A string, or `null` where there is none. -/
def ofString? : Option String → Json
  | some s => .str s
  | none => .null

end Json

end ScriptLab
