import ScriptLab.Json.Document
import ScriptLab.Proofs.Number.Notation

/-!
# The grammar of JSON

Which texts are JSON values, and which characters a string denotes. A string may hold escapes that
denote no character: half of a character beyond U+FFFF without its other half.
-/

namespace ScriptLab.Json

/-- A row of blanks. -/
def Blank (gap : List Char) : Prop :=
  ∀ c ∈ gap, c = ' ' ∨ c = '\n' ∨ c = '\r' ∨ c = '\t'

/-! ## Strings -/

/-- A hexadecimal digit with its value, in lower or upper case. -/
def HexDigit (c : Char) (value : Nat) : Prop :=
  value < 16 ∧ (c = Nat.digitChar value ∨ c = (Nat.digitChar value).toUpper)

/-- Four hexadecimal digits with their value. -/
inductive Hex : List Char → Nat → Prop
  | four {a b c d i j k l} (ha : HexDigit a i) (hb : HexDigit b j) (hc : HexDigit c k)
      (hd : HexDigit d l) : Hex [a, b, c, d] (4096 * i + 256 * j + 16 * k + l)

/-- The characters behind a backslash with those that they stand for. -/
def shortEscapes : List (Char × Char) :=
  [('"', '"'), ('\\', '\\'), ('/', '/'), ('b', '\x08'), ('f', '\x0c'), ('n', '\n'), ('r', '\r'),
    ('t', '\t')]

/-- A character that may stand in a string as it is. -/
def Plain (c : Char) : Prop :=
  c ≠ '"' ∧ c ≠ '\\' ∧ 0x20 ≤ c.toNat

/-- What may stand between the quotes of a string. -/
inductive Body : List Char → Prop
  | nil : Body []
  | plain {c rest} (hc : Plain c) (h : Body rest) : Body (c :: rest)
  | short {mark c rest} (hmark : (mark, c) ∈ shortEscapes) (h : Body rest) :
      Body ('\\' :: mark :: rest)
  | unit {digits n rest} (hdigits : Hex digits n) (h : Body rest) :
      Body ('\\' :: 'u' :: (digits ++ rest))

/-- A character beyond U+FFFF with the two units that it is written with. -/
def Halves (c : Char) (high low : Nat) : Prop :=
  0xd800 ≤ high ∧ high < 0xdc00 ∧ 0xdc00 ≤ low ∧ low < 0xe000 ∧
    c.toNat = 0x10000 + 0x400 * (high - 0xd800) + (low - 0xdc00)

/-- What stands between the quotes of a string, with the characters that it denotes. -/
inductive Spells : List Char → List Char → Prop
  | nil : Spells [] []
  | plain {c rest text} (hc : Plain c) (h : Spells rest text) : Spells (c :: rest) (c :: text)
  | short {mark c rest text} (hmark : (mark, c) ∈ shortEscapes) (h : Spells rest text) :
      Spells ('\\' :: mark :: rest) (c :: text)
  | unit {digits c rest text} (hdigits : Hex digits c.toNat) (h : Spells rest text) :
      Spells ('\\' :: 'u' :: (digits ++ rest)) (c :: text)
  | pair {first second high low c rest text} (hfirst : Hex first high) (hsecond : Hex second low)
      (hc : Halves c high low) (h : Spells rest text) :
      Spells ('\\' :: 'u' :: (first ++ '\\' :: 'u' :: (second ++ rest))) (c :: text)

theorem Spells.body {cs text : List Char} (h : Spells cs text) : Body cs := by
  induction h with
  | nil => exact .nil
  | plain hc _ ih => exact .plain hc ih
  | short hmark _ ih => exact .short hmark ih
  | unit hdigits _ ih => exact .unit hdigits ih
  | pair hfirst hsecond _ _ ih => exact .unit hfirst (.unit hsecond ih)

mutual

/-- A JSON value. -/
inductive Value : List Char → Prop
  | null : Value ['n', 'u', 'l', 'l']
  | yes : Value ['t', 'r', 'u', 'e']
  | no : Value ['f', 'a', 'l', 's', 'e']
  | number {cs negative n k} (h : Number.JsonNumber cs negative n k) : Value cs
  | text {body} (h : Body body) : Value ('"' :: (body ++ ['"']))
  | emptyArr {gap} (hgap : Blank gap) : Value ('[' :: (gap ++ [']']))
  | arr {inner} (h : Items inner) : Value ('[' :: (inner ++ [']']))
  | emptyObj {gap} (hgap : Blank gap) : Value ('\x7b' :: (gap ++ ['\x7d']))
  | obj {inner fields} (h : Fields inner fields) : Value ('\x7b' :: (inner ++ ['\x7d']))

/-- The items of an array with the blanks around them. -/
inductive Items : List Char → Prop
  | last {before item behind} (hbefore : Blank before) (h : Value item) (hbehind : Blank behind) :
      Items (before ++ (item ++ behind))
  | cons {before item behind rest} (hbefore : Blank before) (h : Value item)
      (hbehind : Blank behind) (hrest : Items rest) :
      Items (before ++ (item ++ (behind ++ ',' :: rest)))

/-- A field of an object with the blanks around its parts, and what stands between the quotes of its
key, with the text of its value. -/
inductive Field : List Char → List Char × List Char → Prop
  | mk {before key middle gap item behind} (hbefore : Blank before) (hkey : Body key)
      (hmiddle : Blank middle) (hgap : Blank gap) (h : Value item) (hbehind : Blank behind) :
      Field (before ++ '"' :: (key ++ '"' :: (middle ++ ':' :: (gap ++ (item ++ behind)))))
        (key, item)

/-- The fields of an object. -/
inductive Fields : List Char → List (List Char × List Char) → Prop
  | last {cs field} (h : Field cs field) : Fields cs [field]
  | cons {cs field rest fields} (h : Field cs field) (hrest : Fields rest fields) :
      Fields (cs ++ ',' :: rest) (field :: fields)

end

/-- An object whose fields have the given names, with the texts of their values in order. -/
inductive Object : List Char → List (String × List Char) → Prop
  | empty {gap} (hgap : Blank gap) : Object ('\x7b' :: (gap ++ ['\x7d'])) []
  | fields {inner fields entries} (h : Fields inner fields)
      (hnames : List.Forall₂ (fun field entry =>
        Spells field.1 entry.1.toList ∧ field.2 = entry.2) fields entries) :
      Object ('\x7b' :: (inner ++ ['\x7d'])) entries

end ScriptLab.Json
