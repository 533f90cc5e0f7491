import ScriptLab.Number.Reading

/-!
# Reading JSON

A document is a JSON text as it was read: strict JSON, with any value at its top and blanks around
it. Of numbers it keeps the natural ones, and of strings those whose escapes denote characters.
-/

namespace ScriptLab.Json

/-- A JSON text as it was read. -/
inductive Document where
  | null
  | bool (b : Bool)
  /-- A number without sign, places and exponent. -/
  | natural (n : Nat)
  /-- Any other number. -/
  | number
  /-- A string; none if some of its escapes do not denote a character. -/
  | str (text : Option String)
  | arr (items : List Document)
  | obj (fields : List (Option String × Document))

/-! ## Blanks -/

/-- The blanks of JSON. -/
def isBlank (c : Char) : Bool :=
  c == ' ' || c == '\n' || c == '\r' || c == '\t'

/-- Leaves out the blanks in front. -/
def skipBlanks (cs : List Char) : List Char :=
  cs.dropWhile isBlank

/-! ## Strings -/

/-- A part of a string: a character, or a unit of 16 bits that stands for one or for half of one. -/
inductive Piece where
  | char (c : Char)
  | unit (n : Nat)
deriving DecidableEq

/-- The value of a hexadecimal digit. -/
def hexValue? (c : Char) : Option Nat :=
  if '0' ≤ c ∧ c ≤ '9' then some (c.toNat - '0'.toNat)
  else if 'a' ≤ c ∧ c ≤ 'f' then some (c.toNat - 'a'.toNat + 10)
  else if 'A' ≤ c ∧ c ≤ 'F' then some (c.toNat - 'A'.toNat + 10)
  else none

/-- The unit that four hexadecimal digits denote. -/
def unitValue? (a b c d : Char) : Option Nat := do
  return 4096 * (← hexValue? a) + 256 * (← hexValue? b) + 16 * (← hexValue? c) + (← hexValue? d)

/-- The character that stands behind a backslash for another one. -/
def unescape? : Char → Option Char
  | '"' => some '"'
  | '\\' => some '\\'
  | '/' => some '/'
  | 'b' => some '\x08'
  | 'f' => some '\x0c'
  | 'n' => some '\n'
  | 'r' => some '\r'
  | 't' => some '\t'
  | _ => none

/-- The parts of a string up to its closing quote, and what follows. Control characters must be
escaped. -/
def readPieces : List Char → Option (List Piece × List Char)
  | [] => none
  | '"' :: rest => some ([], rest)
  | '\\' :: 'u' :: a :: b :: c :: d :: rest => do
    let n ← unitValue? a b c d
    let (pieces, rest) ← readPieces rest
    return (.unit n :: pieces, rest)
  | '\\' :: c :: rest => do
    let c ← unescape? c
    let (pieces, rest) ← readPieces rest
    return (.char c :: pieces, rest)
  | c :: rest =>
    if c.toNat < 0x20 then none
    else do
      let (pieces, rest) ← readPieces rest
      return (.char c :: pieces, rest)

/-- The first half of a character beyond U+FFFF. -/
def isHighUnit (n : Nat) : Bool :=
  0xd800 ≤ n && n < 0xdc00

/-- The second half of a character beyond U+FFFF. -/
def isLowUnit (n : Nat) : Bool :=
  0xdc00 ≤ n && n < 0xe000

/-- The characters that the parts of a string denote, if each half is beside its other half. -/
def joinPieces? : List Piece → Option (List Char)
  | [] => some []
  | .char c :: rest => (c :: ·) <$> joinPieces? rest
  | .unit high :: .unit low :: rest =>
    if isHighUnit high then
      if isLowUnit low then
        (Char.ofNat (0x10000 + 0x400 * (high - 0xd800) + (low - 0xdc00)) :: ·) <$> joinPieces? rest
      else none
    else if isLowUnit high then none
    else (Char.ofNat high :: ·) <$> joinPieces? (.unit low :: rest)
  | .unit n :: rest =>
    if isHighUnit n || isLowUnit n then none else (Char.ofNat n :: ·) <$> joinPieces? rest

/-- A string behind its opening quote, and what follows. -/
def readString (cs : List Char) : Option (Option String × List Char) := do
  let (pieces, rest) ← readPieces cs
  return ((joinPieces? pieces).map String.ofList, rest)

/-! ## Numbers -/

/-- A row of at least one digit, and what follows. -/
def readDigits (cs : List Char) : Option (List Char × List Char) :=
  match cs.span Char.isDigit with
  | ([], _) => none
  | found => some found

/-- The whole part of a number: zero, or a row of digits that starts with another one. -/
def readWhole : List Char → Option (Nat × List Char)
  | '0' :: rest => some (0, rest)
  | cs => do
    let (digits, rest) ← readDigits cs
    return (Number.ofDigits digits, rest)

/-- Whether a number has places, and what follows them. -/
def readPlaces : List Char → Option (Bool × List Char)
  | '.' :: rest => do
    let (_, rest) ← readDigits rest
    return (true, rest)
  | cs => some (false, cs)

/-- What follows an optional sign. -/
def skipSign : List Char → List Char
  | '+' :: rest => rest
  | '-' :: rest => rest
  | cs => cs

/-- Whether a number has an exponent, and what follows it. -/
def readExponent : List Char → Option (Bool × List Char)
  | [] => some (false, [])
  | c :: rest =>
    if c = 'e' ∨ c = 'E' then do
      let (_, rest) ← readDigits (skipSign rest)
      return (true, rest)
    else some (false, c :: rest)

/-- A number behind its sign, and what follows. -/
def readMagnitude (signed : Bool) (cs : List Char) : Option (Document × List Char) := do
  let (n, cs) ← readWhole cs
  let (placed, cs) ← readPlaces cs
  let (scaled, cs) ← readExponent cs
  return (if signed || placed || scaled then .number else .natural n, cs)

/-- A number, and what follows. -/
def readNumber : List Char → Option (Document × List Char)
  | '-' :: cs => readMagnitude true cs
  | cs => readMagnitude false cs

/-! ## Values -/

/-- The values that are words. -/
def readWord : List Char → Option (Document × List Char)
  | 'n' :: 'u' :: 'l' :: 'l' :: rest => some (.null, rest)
  | 't' :: 'r' :: 'u' :: 'e' :: rest => some (.bool true, rest)
  | 'f' :: 'a' :: 'l' :: 's' :: 'e' :: rest => some (.bool false, rest)
  | _ => none

mutual

/-- A value behind blanks, and what follows. The number bounds how deep the reading goes. -/
def readValue : Nat → List Char → Option (Document × List Char)
  | 0, _ => none
  | n + 1, cs =>
    match skipBlanks cs with
    | '"' :: rest => do
      let (text, rest) ← readString rest
      return (.str text, rest)
    | '[' :: rest =>
      match skipBlanks rest with
      | ']' :: rest => some (.arr [], rest)
      | _ => do
        let (items, rest) ← readItems n rest
        return (.arr items, rest)
    | '\x7b' :: rest =>
      match skipBlanks rest with
      | '\x7d' :: rest => some (.obj [], rest)
      | _ => do
        let (fields, rest) ← readFields n rest
        return (.obj fields, rest)
    | c :: rest => if c = '-' ∨ c.isDigit then readNumber (c :: rest) else readWord (c :: rest)
    | [] => none

/-- The items of an array up to its closing bracket, and what follows. -/
def readItems : Nat → List Char → Option (List Document × List Char)
  | 0, _ => none
  | n + 1, cs => do
    let (item, rest) ← readValue n cs
    match skipBlanks rest with
    | ',' :: rest =>
      let (items, rest) ← readItems n rest
      return (item :: items, rest)
    | ']' :: rest => return ([item], rest)
    | _ => none

/-- The fields of an object up to its closing bracket, and what follows. -/
def readFields : Nat → List Char → Option (List (Option String × Document) × List Char)
  | 0, _ => none
  | n + 1, cs =>
    match skipBlanks cs with
    | '"' :: rest => do
      let (key, rest) ← readString rest
      match skipBlanks rest with
      | ':' :: rest =>
        let (item, rest) ← readValue n rest
        match skipBlanks rest with
        | ',' :: rest =>
          let (fields, rest) ← readFields n rest
          return ((key, item) :: fields, rest)
        | '\x7d' :: rest => return ([(key, item)], rest)
        | _ => none
      | _ => none
    | _ => none

end

namespace Document

/-- Reads a JSON text. Each level of reading takes a character at least every second time, so that
twice the length of the text is depth enough. -/
def read? (text : String) : Option Document := do
  let cs := text.toList
  let (document, rest) ← readValue (2 * cs.length + 2) cs
  if (skipBlanks rest).isEmpty then some document else none

/-! ## Structures -/

/-- The string that a document is. -/
def text? : Document → Option String
  | str text => text
  | _ => none

/-- The truth value that a document is. -/
def bool? : Document → Option Bool
  | bool b => some b
  | _ => none

/-- The natural number of 64 bits that a document is. -/
def word? : Document → Option Nat
  | natural n => if n < UInt64.size then some n else none
  | _ => none

/-- Reads a document that may be `null`. -/
def optional? {α : Type} (read : Document → Option α) : Document → Option (Option α)
  | null => some none
  | document => some <$> read document

/-- A field that a document may give, with the value that it has otherwise. -/
def field? {α : Type} (fields : List (String × Document)) (name : String) (otherwise : α)
    (read : Document → Option α) : Option α :=
  match fields.lookup name with
  | some document => read document
  | none => some otherwise

/-- The keys of an object, if all of them are known. -/
def named? : List (Option String × Document) → Option (List (String × Document))
  | [] => some []
  | (some key, document) :: rest => ((key, document) :: ·) <$> named? rest
  | (none, _) :: _ => none

/-- The fields with the given names that a document gives. It is an object, where other fields are
passed over and none of these is repeated, or an array of the fields in their order, from which the
last ones may be missing. -/
def fields? (names : List String) : Document → Option (List (String × Document))
  | arr items => if items.length ≤ names.length then some (names.zip items) else none
  | obj entries => do
    let entries ← named? entries
    let given := entries.filter fun entry => names.contains entry.1
    if (given.map Prod.fst).Nodup then some given else none
  | _ => none

end Document

end ScriptLab.Json
