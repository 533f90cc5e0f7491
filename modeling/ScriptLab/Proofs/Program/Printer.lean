import ScriptLab.Number.Text
import ScriptLab.Proofs.Program.Derivation

/-!
# Printing programs

A program is printed as words, each behind a space or, if it starts a statement or closes a block, on a
new line. There are parentheses only around operands that bind less tightly than their place asks for.
-/

namespace ScriptLab.Program

open Text (Pos)

variable (dialect : Dialect)

/-! ## Words -/

/-- A token of a printed program, and whether it starts a line. -/
structure Word where
  kind : TokenKind
  startsLine : Bool

/-- How a string literal shows a character. -/
def escape : Char → List Char
  | '"' => ['\\', '"']
  | '\\' => ['\\', '\\']
  | c => [c]

/-- The text of a token. -/
def TokenKind.spelling : TokenKind → List Char
  | name word => word.toList
  | number value => (Number.text value).toList
  | text value => '"' :: (value.toList.flatMap escape ++ ['"'])
  | keyword word => ((word.spelling? dialect).getD "").toList
  | symbol s => s.spelling.toList
  | done => []

/-- The text of words behind others. -/
def following (words : List Word) : List Char :=
  words.flatMap fun word => (if word.startsLine then '\n' else ' ') :: word.kind.spelling dialect

/-- The text of words. -/
def layout : List Word → List Char
  | [] => []
  | word :: rest => word.kind.spelling dialect ++ following dialect rest

/-! ## Symbols of operators -/

def BinaryOp.symbol : BinaryOp → Symbol
  | or => .orOr
  | and => .andAnd
  | eq => .equal
  | ne => .notEqual
  | lt => .less
  | le => .lessEqual
  | gt => .greater
  | ge => .greaterEqual
  | add => .plus
  | sub => .minus
  | mul => .star
  | div => .slash
  | rem => .percent

def UnaryOp.symbol : UnaryOp → Symbol
  | not => .bang
  | neg => .minus

/-- The symbol of an assignment. The older dialect has only one. -/
def Dialect.assigning : Dialect → AssignOp → Symbol
  | .legacy, _ => .leftArrow
  | .modern, .set => .assign
  | .modern, .add => .addAssign
  | .modern, .sub => .subAssign

/-! ## Expressions and statements -/

/-- The level of the outermost operator: a precedence for an operator with two operands, seven for one
in front of its operand, eight for all else. -/
def Expr.level : Expr → Nat
  | .binary _ op _ _ => op.precedence
  | .unary .. => 7
  | _ => 8

/-- A token that stands on the line of the token before it. -/
def Word.inline (kind : TokenKind) : Word :=
  ⟨kind, false⟩

/-- Words, in parentheses if asked for. -/
def grouped (needed line : Bool) (words : Bool → List Word) : List Word :=
  if needed then ⟨.symbol .leftParen, line⟩ :: (words false ++ [.inline (.symbol .rightParen)])
  else words line

/-- Rows of words with commas between them. -/
def separated : List (List Word) → List Word
  | [] => []
  | [words] => words
  | words :: rest => words ++ .inline (.symbol .comma) :: separated rest

/-- The statements of a block, in braces. -/
def braced (words : List Word) : List Word :=
  .inline (.symbol .leftBrace) :: (words ++ [⟨.symbol .rightBrace, true⟩])

mutual

/-- The words of an expression, the first of which may start a line. -/
def Expr.words (line : Bool) : Expr → List Word
  | .null _ => [⟨.keyword .litNull, line⟩]
  | .bool _ value => [⟨.keyword (if value then .litTrue else .litFalse), line⟩]
  | .num _ value => [⟨.number value, line⟩]
  | .str _ value => [⟨.text value, line⟩]
  | .arr _ items =>
    ⟨.symbol .leftBracket, line⟩ ::
      (separated (wordsOfExprs items) ++ [.inline (.symbol .rightBracket)])
  | .obj _ entries =>
    ⟨.symbol .leftBrace, line⟩ ::
      (separated (wordsOfEntries entries) ++ [.inline (.symbol .rightBrace)])
  | .ident _ name => [⟨.name name, line⟩]
  | .fn _ params body =>
    ⟨.symbol .atSign, line⟩ :: .inline (.symbol .leftParen) ::
      (separated (params.map fun param => [.inline (.name param)]) ++
        .inline (.symbol .rightParen) :: braced (wordsOfStmts true body))
  | .call _ callee args =>
    grouped (callee.level < 8) line (fun line => callee.words line) ++
      .inline (.symbol .leftParen) ::
        (separated (wordsOfExprs args) ++ [.inline (.symbol .rightParen)])
  | .index _ target index =>
    grouped (target.level < 8) line (fun line => target.words line) ++
      .inline (.symbol .leftBracket) :: (index.words false ++ [.inline (.symbol .rightBracket)])
  | .prop _ target name =>
    grouped (target.level < 8) line (fun line => target.words line) ++
      [.inline (.symbol .dot), .inline (.name name)]
  | .binary _ op left right =>
    grouped (left.level < op.precedence) line (fun line => left.words line) ++
      .inline (.symbol op.symbol) ::
        grouped (right.level < op.precedence + 1) false (fun line => right.words line)
  | .unary _ op operand =>
    ⟨.symbol op.symbol, line⟩ ::
      grouped (operand.level < 7) false (fun line => operand.words line)
  | .cond _ arms none => wordsOfArms .ifThen line arms
  | .cond _ arms (some body) =>
    wordsOfArms .ifThen line arms ++ .inline (.keyword .orElse) :: braced (wordsOfStmts true body)

/-- The words of each expression of a list. -/
def wordsOfExprs : List Expr → List (List Word)
  | [] => []
  | item :: rest => item.words false :: wordsOfExprs rest

/-- The words of each entry of an object. -/
def wordsOfEntries : List (String × Expr) → List (List Word)
  | [] => []
  | (key, value) :: rest =>
    (.inline (.text key) :: .inline (.symbol .colon) :: value.words false) :: wordsOfEntries rest

/-- The words of the arms of a conditional, each behind a keyword, of which the first is given. -/
def wordsOfArms (word : Keyword) (line : Bool) : List (Expr × List Stmt) → List Word
  | [] => []
  | (cond, body) :: rest =>
    ⟨.keyword word, line⟩ ::
      (cond.words false ++ (braced (wordsOfStmts true body) ++ wordsOfArms .elseIf false rest))

/-- The words of a statement, the first of which may start a line. -/
def Stmt.words (line : Bool) : Stmt → List Word
  | .metadata _ name? value =>
    ⟨.symbol .metadata, line⟩ ::
      (name?.toList.map (fun name => .inline (.name name)) ++ value.words false)
  | .define _ name isMutable value =>
    ⟨(dialect.defining isMutable).1, line⟩ :: .inline (.name name) ::
      .inline (.symbol (dialect.defining isMutable).2) :: value.words false
  | .assign _ target op value =>
    target.words line ++ .inline (.symbol (dialect.assigning op)) :: value.words false
  | .out _ value => ⟨.symbol .out, line⟩ :: value.words false
  | .back _ none => [⟨.keyword .returnBack, line⟩]
  | .back _ (some value) => ⟨.keyword .returnBack, line⟩ :: value.words false
  | .leave _ => [⟨.keyword .breakOut, line⟩]
  | .again _ => [⟨.keyword .continueOn, line⟩]
  | .loop _ body => ⟨.keyword .loop, line⟩ :: braced (wordsOfStmts true body)
  | .each _ var items body =>
    ⟨.keyword .each, line⟩ :: .inline (dialect.defining false).1 :: .inline (.name var) ::
      .inline (.symbol .comma) :: (items.words false ++ braced (wordsOfStmts true body))
  | .count _ var times body =>
    ⟨.keyword .forCount, line⟩ :: .inline (dialect.defining false).1 :: .inline (.name var) ::
      .inline (.symbol .comma) :: (times.words false ++ braced (wordsOfStmts true body))
  | .eval _ value => value.words line

/-- The words of statements, each on a line of its own. The first one may go on with a line. -/
def wordsOfStmts (line : Bool) : List Stmt → List Word
  | [] => []
  | s :: rest => s.words line ++ wordsOfStmts true rest

end

/-- The text of a program, one statement a line. -/
def print (program : List Stmt) : String :=
  String.ofList (layout dialect (wordsOfStmts dialect false program))

/-! ## Programs that can be written -/

/-- The characters of a name. Each segment but the last one starts with a capital ASCII letter. -/
inductive NameChars : List Char → Prop
  | segment {c cs} (hc : isNameStart c = true) (hs : ∀ d ∈ cs, isNamePart d = true) :
      NameChars (c :: cs)
  | qualified {c cs rest} (hc : c.isUpper = true) (hs : ∀ d ∈ cs, isNamePart d = true)
      (h : NameChars rest) : NameChars (c :: (cs ++ ':' :: rest))

/-- A word that is a name in a dialect. -/
structure Dialect.Names (word : String) : Prop where
  chars : NameChars word.toList
  free : dialect.keyword? word = none

/-- A number that has a literal: a finite one without a sign. -/
def IsLiteral (x : Float) : Prop :=
  ∃ mantissa exponent, Number.form x = .finite false mantissa exponent

mutual

/-- Whether a dialect can write an expression. -/
def Expr.Writable : Expr → Prop
  | .null _ | .bool .. | .str .. => True
  | .num _ value => IsLiteral value
  | .arr _ items => WritableExprs items
  | .obj _ entries => WritableEntries entries
  | .ident _ name => dialect.Names name
  | .fn _ params body => (∀ param ∈ params, dialect.Names param) ∧ WritableStmts false body
  | .call _ callee args => callee.Writable ∧ WritableExprs args
  | .index _ target index => target.Writable ∧ index.Writable
  | .prop _ target name => target.Writable ∧ dialect.Names name
  | .binary _ _ left right => left.Writable ∧ right.Writable
  | .unary _ _ operand => operand.Writable
  | .cond _ arms none => arms ≠ [] ∧ WritableArms arms
  | .cond _ arms (some body) => arms ≠ [] ∧ WritableArms arms ∧ WritableStmts false body

def WritableExprs : List Expr → Prop
  | [] => True
  | item :: rest => item.Writable ∧ WritableExprs rest

def WritableEntries : List (String × Expr) → Prop
  | [] => True
  | (_, value) :: rest => value.Writable ∧ WritableEntries rest

def WritableArms : List (Expr × List Stmt) → Prop
  | [] => True
  | (cond, body) :: rest => cond.Writable ∧ WritableStmts false body ∧ WritableArms rest

/-- Whether a dialect can write a statement, outside of all blocks or in one. -/
def Stmt.Writable (top : Bool) : Stmt → Prop
  | .metadata _ name? value =>
    top = true ∧ (∀ name ∈ name?, dialect.Names name) ∧ value.Writable ∧ value.isStatic = true
  | .define _ name _ value => dialect.Names name ∧ value.Writable
  | .assign _ target op value =>
    target.isPlace = true ∧ (op = .set ∨ dialect = .modern) ∧ target.Writable ∧ value.Writable
  | .out _ value => value.Writable
  | .back _ none => True
  | .back _ (some value) => value.Writable
  | .leave _ | .again _ => True
  | .loop _ body => WritableStmts false body
  | .each _ var items body => dialect.Names var ∧ items.Writable ∧ WritableStmts false body
  | .count _ var times body => dialect.Names var ∧ times.Writable ∧ WritableStmts false body
  | .eval _ value => value.Writable

def WritableStmts (top : Bool) : List Stmt → Prop
  | [] => True
  | s :: rest => s.Writable top ∧ WritableStmts top rest

end

end ScriptLab.Program
