import ScriptLab.Program.Fault
import ScriptLab.Program.Tree

/-!
# Reading tokens

A parser reads tokens from a cursor, which also counts how many levels of nesting are open. The last
token marks the end of the program; a cursor never moves past it.
-/

namespace ScriptLab.Program

open Text (Pos)

/-- The tokens that are left, the next one apart, and the number of open levels. -/
structure Cursor where
  next : Token
  rest : List Token
  depth : Nat

/-- The levels of nesting that may be open at once. -/
def maxDepth : Nat := 128

/-- A function that reads tokens and gives a value, or the fault that it met. -/
abbrev Parser := StateT Cursor (Except Fault)

namespace Cursor

/-- Moves behind the next token, if that is not the last one. -/
def advance (c : Cursor) : Cursor :=
  match c.rest with
  | [] => c
  | token :: rest => { c with next := token, rest }

/-- The token behind the next one, or the last one. -/
def second (c : Cursor) : Token :=
  c.rest.headD c.next

/-- Moves behind all tokens that follow and are the given symbol. -/
def skip (symbol : Symbol) (next : Token) : List Token → Token × List Token
  | [] => (next, [])
  | token :: rest =>
    if next.kind = .symbol symbol then skip symbol token rest else (next, token :: rest)

end Cursor

namespace Parser

/-! ## Single tokens -/

/-- Stops with a fault. -/
def fail {α : Type} (cause : Cause) (pos : Pos) : Parser α :=
  throw ⟨cause, pos⟩

/-- The next token. -/
def peek : Parser Token :=
  return (← get).next

/-- Takes the next token. -/
def take : Parser Token := do
  let c ← get
  set c.advance
  return c.next

/-- Whether the next token is of a kind. -/
def at? (kind : TokenKind) : Parser Bool :=
  return (← get).next.kind = kind

/-- Takes the next token if it is of a kind, and tells whether it was. -/
def eat (kind : TokenKind) : Parser Bool := do
  let c ← get
  if c.next.kind = kind then
    set c.advance
    return true
  else return false

/-- Takes the next token, which must be of a kind. -/
def expect (kind : TokenKind) : Parser Unit := do
  let c ← get
  if c.next.kind = kind then set c.advance
  else fail (.expected kind c.next.kind) c.next.pos

/-- Takes the next token, which must be a name. -/
def name : Parser String := do
  let token ← take
  match token.kind with
  | .name word => return word
  | kind => fail (.unexpected kind) token.pos

/-- Takes all semicolons that come next. -/
def skipSemicolons : Parser Unit :=
  modify fun c =>
    let (next, rest) := Cursor.skip .semicolon c.next c.rest
    { c with next, rest }

/-- Whether a statement ends here: at a line break, a semicolon, a closing brace or the end. -/
def atEnd : Parser Bool := do
  let token ← peek
  return token.afterBreak || token.kind = .done || token.kind = .symbol .semicolon ||
    token.kind = .symbol .rightBrace

/-- Refuses a token that follows a statement on its line, unless it separates statements or closes
the list of them. -/
def expectSeparator (close : TokenKind) : Parser Unit := do
  let token ← peek
  if token.afterBreak || token.kind = close || token.kind = .symbol .semicolon then return ()
  else fail (.unexpected token.kind) token.pos

/-! ## Nesting -/

/-- Runs a parser with one level more, which it closes at the end. -/
def nested {α : Type} (p : Parser α) : Parser α := do
  let c ← get
  if maxDepth < c.depth + 1 then fail .nestedTooDeep c.next.pos
  set { c with depth := c.depth + 1 }
  let a ← p
  modify fun c => { c with depth := c.depth - 1 }
  return a

/-! ## Sequences

Each round takes a token at least, so that a bound by the number of tokens is never felt. -/

/-- The rounds that a sequence may have. -/
def rounds : Parser Nat :=
  return (← get).rest.length + 1

/-- Items separated by commas up to a closing symbol, behind those already read, in reverse. -/
def itemsFrom {α : Type} (close : Symbol) (item : Parser α) : Nat → List α → Parser (List α)
  | 0, _ => do
    let token ← peek
    fail (.unexpected token.kind) token.pos
  | n + 1, items => do
    if ← eat (.symbol close) then return items.reverse
    let a ← item
    if ← eat (.symbol .comma) then itemsFrom close item n (a :: items)
    else
      expect (.symbol close)
      return (a :: items).reverse

/-- Items separated by commas up to a closing symbol. A comma may stand behind the last item. -/
def items {α : Type} (close : Symbol) (item : Parser α) : Parser (List α) := do
  itemsFrom close item (← rounds) []

/-- Statements up to the token that closes the list of them, which is taken, behind those already
read, in reverse. -/
def statementsFrom (close : TokenKind) (statement : Parser Stmt) :
    Nat → List Stmt → Parser (List Stmt)
  | 0, _ => do
    let token ← peek
    fail (.unexpected token.kind) token.pos
  | n + 1, statements => do
    skipSemicolons
    if ← eat close then return statements.reverse
    let s ← statement
    expectSeparator close
    statementsFrom close statement n (s :: statements)

/-- Statements up to the token that closes the list of them. -/
def statements (close : TokenKind) (statement : Parser Stmt) : Parser (List Stmt) := do
  statementsFrom close statement (← rounds) []

end Parser

end ScriptLab.Program
