import ScriptLab.Program.Cursor
import ScriptLab.Program.Depth
import ScriptLab.Program.Lexer

/-!
# Parsing

The grammar rules are written over the rules that hold one level of nesting further in. A rule calls
those only inside `nested`, so that as many sets of rules as there may be open levels, one inside the
other, are enough for every program.
-/

namespace ScriptLab.Program

open Text (Pos)
open ScriptLab.Program.Parser

/-- The rules at one level of nesting. -/
structure Rules where
  expression : Parser Expr
  /-- An expression whose operators all bind more tightly than the given precedence. -/
  binary : Nat → Parser Expr
  /-- The operators that follow a left operand. -/
  operators : Nat → Expr → Parser Expr
  unary : Parser Expr
  /-- The calls, indexings and properties that follow an expression. -/
  links : Expr → Parser Expr
  block : Parser (List Stmt)
  statement : Parser Stmt

/-- The operator that a token stands for between two operands. -/
def Symbol.binaryOp? : Symbol → Option BinaryOp
  | orOr => some .or
  | andAnd => some .and
  | equal => some .eq
  | notEqual => some .ne
  | less => some .lt
  | lessEqual => some .le
  | greater => some .gt
  | greaterEqual => some .ge
  | plus => some .add
  | minus => some .sub
  | star => some .mul
  | slash => some .div
  | percent => some .rem
  | _ => none

/-- The operator that goes on with an expression. One that starts a line does not. -/
def Token.binaryOp? (token : Token) : Option BinaryOp :=
  match token.kind with
  | .symbol s => if token.afterBreak then none else s.binaryOp?
  | _ => none

/-- The operator that a token stands for in front of an operand. -/
def Token.unaryOp? (token : Token) : Option UnaryOp :=
  match token.kind with
  | .symbol .bang => some .not
  | .symbol .minus => some .neg
  | _ => none

/-- The assignment that a token stands for behind a place. -/
def Token.assignOp? (dialect : Dialect) (token : Token) : Option AssignOp :=
  match dialect, token.kind with
  | .modern, .symbol .assign => some .set
  | .modern, .symbol .addAssign => some .add
  | .modern, .symbol .subAssign => some .sub
  | .legacy, .symbol .leftArrow => some .set
  | _, _ => none

namespace Rules

/-! ## Expressions -/

/-- Parameters and body of a function. -/
def function (block : Parser (List Stmt)) (pos : Pos) : Parser Expr := do
  expect (.symbol .leftParen)
  let params ← items .rightParen name
  let body ← block
  return .fn pos params body

/-- The arms behind the first one, and the body for the case that no condition holds. -/
def armsFrom (expression : Parser Expr) (block : Parser (List Stmt)) (pos : Pos) :
    Nat → List (Expr × List Stmt) → Parser Expr
  | 0, _ => do
    let token ← peek
    fail (.unexpected token.kind) token.pos
  | n + 1, arms => do
    if ← eat (.keyword .elseIf) then
      let cond ← expression
      let body ← block
      armsFrom expression block pos n ((cond, body) :: arms)
    else if ← eat (.keyword .orElse) then
      let body ← block
      return .cond pos arms.reverse (some body)
    else return .cond pos arms.reverse none

/-- The conditions and bodies of a conditional. -/
def conditional (expression : Parser Expr) (block : Parser (List Stmt)) (pos : Pos) :
    Parser Expr := do
  let cond ← expression
  let body ← block
  armsFrom expression block pos (← rounds) [(cond, body)]

/-- An entry of an object: a name or a string, a colon and a value. -/
def entry (expression : Parser Expr) : Parser (String × Expr) := do
  let token ← take
  let key ← match token.kind with
    | .name word => pure word
    | .text value => pure value
    | kind => fail (.unexpected kind) token.pos
  expect (.symbol .colon)
  return (key, ← expression)

/-- An expression without operators, calls, indexings and properties, unless in parentheses. -/
def primary (expression : Parser Expr) (block : Parser (List Stmt)) : Parser Expr := do
  let token ← take
  let pos := token.pos
  match token.kind with
  | .number value => return .num pos value
  | .text value => return .str pos value
  | .keyword .litTrue => return .bool pos true
  | .keyword .litFalse => return .bool pos false
  | .keyword .litNull => return .null pos
  | .keyword .ifThen => conditional expression block pos
  | .name word => return .ident pos word
  | .symbol .atSign => function block pos
  | .symbol .leftParen =>
    let inner ← expression
    expect (.symbol .rightParen)
    return inner
  | .symbol .leftBracket => return .arr pos (← items .rightBracket expression)
  | .symbol .leftBrace => return .obj pos (← items .rightBrace (entry expression))
  | kind => fail (.unexpected kind) pos

/-- The calls, indexings and properties that follow an expression. A bracket that starts a line does
not belong to it. -/
def linksRule (inner : Rules) (target : Expr) : Parser Expr := do
  let token ← peek
  match token.kind, token.afterBreak with
  | .symbol .leftParen, false => nested do
    let _ ← take
    let args ← items .rightParen inner.expression
    inner.links (.call target.pos target args)
  | .symbol .leftBracket, false => nested do
    let _ ← take
    let index ← inner.expression
    expect (.symbol .rightBracket)
    inner.links (.index target.pos target index)
  | .symbol .dot, _ => nested do
    let _ ← take
    let word ← name
    inner.links (.prop target.pos target word)
  | _, _ => return target

/-- An operand with the operators in front of it. -/
def unaryRule (inner : Rules) (postfixed : Parser Expr) : Parser Expr := do
  let token ← peek
  match token.unaryOp? with
  | some op =>
    let _ ← take
    let operand ← nested inner.unary
    return .unary token.pos op operand
  | none => postfixed

/-- The operators that follow a left operand and bind more tightly than `least`. -/
def operatorsRule (inner : Rules) (least : Nat) (left : Expr) : Parser Expr := do
  let token ← peek
  match token.binaryOp? with
  | some op =>
    if op.precedence ≤ least then return left
    else
      let _ ← take
      nested do
        let right ← inner.binary op.precedence
        inner.operators least (.binary left.pos op left right)
  | none => return left

/-! ## Statements -/

/-- A list of statements in braces. -/
def blockRule (inner : Rules) : Parser (List Stmt) := do
  expect (.symbol .leftBrace)
  nested do
    statements (.symbol .rightBrace) do
      let token ← peek
      if token.kind = .symbol .metadata then fail .metadataInBlock token.pos
      inner.statement

/-- A definition of a name, behind its first word or symbol. -/
def definition (expression : Parser Expr) (pos : Pos) (isMutable : Bool) (mark : Symbol) :
    Parser Stmt := do
  let word ← name
  expect (.symbol mark)
  let value ← expression
  return .define pos word isMutable value

/-- The variable of a loop. -/
def loopVariable (dialect : Dialect) : Parser String := do
  match dialect with
  | .modern => expect (.keyword .constDef)
  | .legacy => expect (.symbol .hash)
  name

/-- An expression that stands as a statement, or an assignment to it. -/
def evaluation (dialect : Dialect) (expression : Parser Expr) : Parser Stmt := do
  let target ← expression
  let token ← peek
  match token.assignOp? dialect with
  | none => return .eval target.pos target
  | some op =>
    if target.isPlace then
      let _ ← take
      let value ← expression
      return .assign target.pos target op value
    else fail .notAPlace target.pos

/-- A statement other than metadata. -/
def statementRule (dialect : Dialect) (expression : Parser Expr) (block : Parser (List Stmt)) :
    Parser Stmt := do
  let c ← get
  let pos := c.next.pos
  match c.next.kind with
  | .symbol .out =>
    let _ ← take
    return .out pos (← expression)
  | .keyword .constDef =>
    let _ ← take
    definition expression pos false .assign
  | .keyword .varDef =>
    let _ ← take
    definition expression pos true .assign
  | .symbol .hash =>
    let _ ← take
    definition expression pos false .assign
  | .symbol .dollar =>
    let _ ← take
    definition expression pos true .leftArrow
  | .symbol .atSign =>
    match c.second.kind with
    | .name word =>
      let _ ← take
      let _ ← take
      return .define pos word false (← function block pos)
    | _ => evaluation dialect expression
  | .keyword .returnBack =>
    let _ ← take
    if ← atEnd then return .back pos none
    else return .back pos (some (← expression))
  | .keyword .breakOut =>
    let _ ← take
    return .leave pos
  | .keyword .continueOn =>
    let _ ← take
    return .again pos
  | .keyword .loop =>
    let _ ← take
    return .loop pos (← block)
  | .keyword .each =>
    let _ ← take
    let var ← loopVariable dialect
    expect (.symbol .comma)
    let items ← expression
    return .each pos var items (← block)
  | .keyword .forCount =>
    let _ ← take
    let var ← loopVariable dialect
    expect (.symbol .comma)
    let times ← expression
    return .count pos var times (← block)
  | _ => evaluation dialect expression

/-! ## All rules -/

/-- The rules at a level, from those one level further in. -/
def around (dialect : Dialect) (inner : Rules) : Rules :=
  let expression := nested (inner.binary 0)
  let block := blockRule inner
  let links := linksRule inner
  let operators := operatorsRule inner
  let unary := unaryRule inner (primary expression block >>= links)
  { expression, block, links, operators, unary
    binary := fun least => unary >>= operators least
    statement := statementRule dialect expression block }

/-- The rules where no further level may be opened. -/
def none : Rules :=
  let refuse {α : Type} : Parser α := do fail .nestedTooDeep (← peek).pos
  { expression := refuse
    binary := fun _ => refuse
    operators := fun _ _ => refuse
    unary := refuse
    links := fun _ => refuse
    block := refuse
    statement := refuse }

/-- The rules with room for a number of levels. -/
def withRoom (dialect : Dialect) : Nat → Rules
  | 0 => none
  | n + 1 => around dialect (withRoom dialect n)

/-- The rules of a dialect outside of any nesting. -/
def ofDialect (dialect : Dialect) : Rules :=
  withRoom dialect (maxDepth + 1)

end Rules

/-! ## Programs -/

/-- A block of metadata: an optional name and a literal. -/
def metadata (expression : Parser Expr) : Parser Stmt := do
  let pos := (← take).pos
  let name? ← match (← peek).kind with
    | .name word => do
      let _ ← take
      pure (some word)
    | _ => pure none
  let value ← expression
  if value.isStatic then return .metadata pos name? value
  else fail .metadataNotLiteral value.pos

/-- A statement outside of any block. -/
def topStatement (rules : Rules) : Parser Stmt := do
  if ← at? (.symbol .metadata) then metadata rules.expression else rules.statement

/-- Parses the tokens of a program. -/
def parseTokens (dialect : Dialect) : List Token → Except Fault (List Stmt)
  | [] => .ok []
  | next :: rest => do
    let rules := Rules.ofDialect dialect
    let (program, _) ← (statements .done (topStatement rules)).run ⟨next, rest, 0⟩
    return program

/-- Parses a program. A tree that is too deep to be run is refused. -/
def parse (dialect : Dialect) (code : String) : Except Fault (List Stmt) := do
  let program ← parseTokens dialect (← tokens dialect code)
  match firstTooDeep program with
  | some pos => .error ⟨.nestedTooDeep, pos⟩
  | none => .ok program

end ScriptLab.Program
