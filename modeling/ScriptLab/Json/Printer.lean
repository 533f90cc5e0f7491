import ScriptLab.Json.Basic

/-!
# Writing JSON

The compact text of a value, without spaces, and the pretty text, with a line for each item. Strings
keep every character but the quote, the backslash and the control characters below U+0020.
-/

namespace ScriptLab.Json

/-- A hexadecimal digit in lower case. -/
def hexDigit (n : Nat) : Char :=
  Nat.digitChar (n % 16)

/-- One character as it stands inside a quoted string. -/
def escape (c : Char) : List Char :=
  match c with
  | '"' => ['\\', '"']
  | '\\' => ['\\', '\\']
  | '\n' => ['\\', 'n']
  | '\t' => ['\\', 't']
  | '\r' => ['\\', 'r']
  | c =>
    if c.toNat = 8 then ['\\', 'b']
    else if c.toNat = 12 then ['\\', 'f']
    else if c.toNat < 0x20 then
      ['\\', 'u', '0', '0', hexDigit (c.toNat / 16), hexDigit c.toNat]
    else [c]

/-- A string in quotes. -/
def quote (s : String) : String :=
  s.foldl (fun text c => (escape c).foldl String.push text) "\"" ++ "\""

/-- The text of a finite double that is not written as an integer. -/
def realText (x : Float) : String :=
  match Number.form x with
  | .finite negative mantissa exponent =>
    if mantissa = 0 then (if negative then "-0.0" else "0.0")
    else Number.Style.json.writeFinite negative mantissa exponent
  | _ => "null"

/-- The text of a value that holds no other, or `none` for arrays and objects. -/
def atom? : Json → Option String
  | null => some "null"
  | bool b => some (if b then "true" else "false")
  | int i => some (Int.repr i)
  | real x => some (realText x)
  | str s => some (quote s)
  | arr _ => none
  | obj _ => none

mutual

/-- The text without spaces. -/
def compact : Json → String
  | arr items => "[" ++ ",".intercalate (compactItems items) ++ "]"
  | obj entries => "\x7b" ++ ",".intercalate (compactEntries entries) ++ "\x7d"
  | value => (atom? value).getD ""

/-- The texts of the items of an array. -/
def compactItems : List Json → List String
  | [] => []
  | item :: rest => compact item :: compactItems rest

/-- The texts of the entries of an object. -/
def compactEntries : List (String × Json) → List String
  | [] => []
  | (key, value) :: rest => (quote key ++ ":" ++ compact value) :: compactEntries rest

end

/-- A line break followed by the given number of steps of two spaces. -/
def lineBreak (level : Nat) : String :=
  String.ofList ('\n' :: List.replicate (2 * level) ' ')

/-- Lines between brackets, indented one step more than the brackets. -/
def enclose (level : Nat) (left right : String) : List String → String
  | [] => left ++ right
  | lines =>
    left ++ lineBreak (level + 1) ++ ("," ++ lineBreak (level + 1)).intercalate lines ++
      lineBreak level ++ right

mutual

/-- The text with a line for each item, at a level of indentation. -/
def prettyAt (level : Nat) : Json → String
  | arr items => enclose level "[" "]" (prettyItems (level + 1) items)
  | obj entries => enclose level "\x7b" "\x7d" (prettyEntries (level + 1) entries)
  | value => (atom? value).getD ""

/-- The texts of the items of an array. -/
def prettyItems (level : Nat) : List Json → List String
  | [] => []
  | item :: rest => prettyAt level item :: prettyItems level rest

/-- The texts of the entries of an object. -/
def prettyEntries (level : Nat) : List (String × Json) → List String
  | [] => []
  | (key, value) :: rest =>
    (quote key ++ ": " ++ prettyAt level value) :: prettyEntries level rest

end

/-- The text with a line for each item. -/
def pretty (value : Json) : String :=
  prettyAt 0 value

end ScriptLab.Json
