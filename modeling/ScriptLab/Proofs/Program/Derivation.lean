import ScriptLab.Program.Parser

/-!
# Derivations

The grammar of programs as a relation between rows of tokens and trees. A tree is read off its tokens
from left to right, with nothing left over. As a text writes them, the tokens of a tree may also hold
matched parentheses around expressions, semicolons between statements, and a comma behind the last
item of a list; operators then need parentheses where their precedence asks for them, and only so many
levels of nesting may be open at once.
-/

namespace ScriptLab.Program

/-- Whether the tokens of a tree are those of a text, or only the ones that make up the tree. -/
inductive Wording where
  | written
  | plain
deriving DecidableEq

/-- An item of a list in brackets. -/
inductive Item where
  | expr (e : Expr)
  | entry (key : String) (value : Expr)
  | name (word : String)

/-- The operators that are open behind an expression, which are those of its left spine. Parentheses
and postfixes close all operators inside. -/
def spine (level opened : Nat) : Nat :=
  if level < 7 then opened else 0

namespace Dialect

/-- The token that starts a definition, and the symbol between its name and its value. -/
def defining : Dialect → Bool → TokenKind × Symbol
  | modern, false => (.keyword .constDef, .assign)
  | modern, true => (.keyword .varDef, .assign)
  | legacy, false => (.symbol .hash, .assign)
  | legacy, true => (.symbol .dollar, .leftArrow)

end Dialect

mutual

/-- The tokens of an expression. The first number is the level of its outermost operator: a precedence
for an operator with two operands, seven for one in front of its operand, eight for all else. The
second one counts the operators, or the postfixes, that are open at its end, and the third one bounds
the levels of nesting. -/
inductive DerivesExpr (w : Wording) (dialect : Dialect) : Nat → Nat → Nat → List Token → Expr → Prop
  | null {n t} (ht : t.kind = .keyword .litNull) :
      DerivesExpr w dialect 8 0 n [t] (.null t.pos)
  | litTrue {n t} (ht : t.kind = .keyword .litTrue) :
      DerivesExpr w dialect 8 0 n [t] (.bool t.pos true)
  | litFalse {n t} (ht : t.kind = .keyword .litFalse) :
      DerivesExpr w dialect 8 0 n [t] (.bool t.pos false)
  | number {n t x} (ht : t.kind = .number x) :
      DerivesExpr w dialect 8 0 n [t] (.num t.pos x)
  | text {n t s} (ht : t.kind = .text s) :
      DerivesExpr w dialect 8 0 n [t] (.str t.pos s)
  | name {n t word} (ht : t.kind = .name word) :
      DerivesExpr w dialect 8 0 n [t] (.ident t.pos word)
  | array {n l ts r items} (hl : l.kind = .symbol .leftBracket)
      (h : DerivesItems w dialect n ts (items.map .expr)) (hr : r.kind = .symbol .rightBracket) :
      DerivesExpr w dialect 8 0 n (l :: (ts ++ [r])) (.arr l.pos items)
  | object {n l ts r entries} (hl : l.kind = .symbol .leftBrace)
      (h : DerivesItems w dialect n ts (entries.map fun entry => .entry entry.1 entry.2))
      (hr : r.kind = .symbol .rightBrace) :
      DerivesExpr w dialect 8 0 n (l :: (ts ++ [r])) (.obj l.pos entries)
  | function {n t ts params body} (ht : t.kind = .symbol .atSign)
      (h : DerivesFunction w dialect n ts params body) :
      DerivesExpr w dialect 8 0 n (t :: ts) (.fn t.pos params body)
  | conditional {n t k o m ts c ts' body ts'' arms otherwise} (ht : t.kind = .keyword .ifThen)
      (hc : DerivesExpr w dialect k o m ts c) (hm : w = .written → m + 1 ≤ n)
      (hb : DerivesBlock w dialect n ts' body) (ha : DerivesArms w dialect n ts'' arms otherwise) :
      DerivesExpr w dialect 8 0 n (t :: (ts ++ (ts' ++ ts'')))
        (.cond t.pos ((c, body) :: arms) otherwise)
  /-- Parentheses around an expression leave no trace in the tree. -/
  | group {n l k o m ts e r} (hw : w = .written) (hl : l.kind = .symbol .leftParen)
      (h : DerivesExpr w dialect k o m ts e) (hm : m + 1 ≤ n)
      (hr : r.kind = .symbol .rightParen) :
      DerivesExpr w dialect 8 0 n (l :: (ts ++ [r])) e
  | call {n k o m ts f l m' ts' args r} (hf : DerivesExpr w dialect k o m ts f)
      (hk : w = .written → k = 8) (hm : w = .written → m ≤ n)
      (hl : l.kind = .symbol .leftParen) (hbreak : l.afterBreak = false)
      (h : DerivesItems w dialect m' ts' (args.map .expr)) (hm' : w = .written → o + 1 + m' ≤ n)
      (hr : r.kind = .symbol .rightParen) :
      DerivesExpr w dialect 8 (o + 1) n (ts ++ l :: (ts' ++ [r])) (.call f.pos f args)
  | index {n k o m ts f l k' o' m' ts' i r} (hf : DerivesExpr w dialect k o m ts f)
      (hk : w = .written → k = 8) (hm : w = .written → m ≤ n)
      (hl : l.kind = .symbol .leftBracket) (hbreak : l.afterBreak = false)
      (h : DerivesExpr w dialect k' o' m' ts' i) (hm' : w = .written → o + 1 + (m' + 1) ≤ n)
      (hr : r.kind = .symbol .rightBracket) :
      DerivesExpr w dialect 8 (o + 1) n (ts ++ l :: (ts' ++ [r])) (.index f.pos f i)
  | property {n k o m ts f dot t word} (hf : DerivesExpr w dialect k o m ts f)
      (hk : w = .written → k = 8) (hm : w = .written → m ≤ n)
      (hdot : dot.kind = .symbol .dot) (ht : t.kind = .name word)
      (hn : w = .written → o + 1 ≤ n) :
      DerivesExpr w dialect 8 (o + 1) n (ts ++ [dot, t]) (.prop f.pos f word)
  | unary {n t op k o m ts e} (ht : t.unaryOp? = some op) (h : DerivesExpr w dialect k o m ts e)
      (hk : w = .written → 7 ≤ k) (hm : w = .written → m + 1 ≤ n) :
      DerivesExpr w dialect 7 0 n (t :: ts) (.unary t.pos op e)
  /-- Operators group to the left: the left operand may bind as tightly, the right one must bind more
  tightly. -/
  | binary {n k o m ts l t op k' o' m' ts' r} (hl : DerivesExpr w dialect k o m ts l)
      (hk : w = .written → op.precedence ≤ k) (hm : w = .written → m ≤ n)
      (ht : t.binaryOp? = some op) (hr : DerivesExpr w dialect k' o' m' ts' r)
      (hk' : w = .written → op.precedence < k') (hm' : w = .written → spine k o + 1 + m' ≤ n) :
      DerivesExpr w dialect op.precedence (spine k o + 1) n (ts ++ t :: ts')
        (.binary l.pos op l r)

/-- The tokens of an item of a list. -/
inductive DerivesItem (w : Wording) (dialect : Dialect) : Nat → List Token → Item → Prop
  | expr {n k o m ts e} (h : DerivesExpr w dialect k o m ts e) (hm : w = .written → m + 1 ≤ n) :
      DerivesItem w dialect n ts (.expr e)
  | namedEntry {n t key colon k o m ts e} (ht : t.kind = .name key)
      (hcolon : colon.kind = .symbol .colon) (h : DerivesExpr w dialect k o m ts e)
      (hm : w = .written → m + 1 ≤ n) :
      DerivesItem w dialect n (t :: colon :: ts) (.entry key e)
  | quotedEntry {n t key colon k o m ts e} (ht : t.kind = .text key)
      (hcolon : colon.kind = .symbol .colon) (h : DerivesExpr w dialect k o m ts e)
      (hm : w = .written → m + 1 ≤ n) :
      DerivesItem w dialect n (t :: colon :: ts) (.entry key e)
  | name {n t word} (ht : t.kind = .name word) : DerivesItem w dialect n [t] (.name word)

/-- The tokens between the brackets of a list. -/
inductive DerivesItems (w : Wording) (dialect : Dialect) : Nat → List Token → List Item → Prop
  | nil {n} : DerivesItems w dialect n [] []
  | last {n ts a} (h : DerivesItem w dialect n ts a) : DerivesItems w dialect n ts [a]
  | cons {n ts a comma ts' items} (h : DerivesItem w dialect n ts a)
      (hcomma : comma.kind = .symbol .comma) (hs : DerivesItems w dialect n ts' items)
      (hne : w = .plain → items ≠ []) :
      DerivesItems w dialect n (ts ++ comma :: ts') (a :: items)

/-- The tokens of the parameters and the body of a function. -/
inductive DerivesFunction (w : Wording) (dialect : Dialect) :
    Nat → List Token → List String → List Stmt → Prop
  | intro {n l ts params r ts' body} (hl : l.kind = .symbol .leftParen)
      (h : DerivesItems w dialect n ts (params.map .name)) (hr : r.kind = .symbol .rightParen)
      (hb : DerivesBlock w dialect n ts' body) :
      DerivesFunction w dialect n (l :: (ts ++ r :: ts')) params body

/-- The tokens of the arms of a conditional behind the first one. -/
inductive DerivesArms (w : Wording) (dialect : Dialect) :
    Nat → List Token → List (Expr × List Stmt) → Option (List Stmt) → Prop
  | none {n} : DerivesArms w dialect n [] [] none
  | orElse {n t ts body} (ht : t.kind = .keyword .orElse)
      (hb : DerivesBlock w dialect n ts body) :
      DerivesArms w dialect n (t :: ts) [] (some body)
  | elseIf {n t k o m ts c ts' body ts'' arms otherwise} (ht : t.kind = .keyword .elseIf)
      (hc : DerivesExpr w dialect k o m ts c) (hm : w = .written → m + 1 ≤ n)
      (hb : DerivesBlock w dialect n ts' body) (ha : DerivesArms w dialect n ts'' arms otherwise) :
      DerivesArms w dialect n (t :: (ts ++ (ts' ++ ts''))) ((c, body) :: arms) otherwise

/-- The tokens of a list of statements in braces. -/
inductive DerivesBlock (w : Wording) (dialect : Dialect) : Nat → List Token → List Stmt → Prop
  | intro {n l m ts body r} (hl : l.kind = .symbol .leftBrace)
      (h : DerivesStmts w dialect false m ts body) (hm : w = .written → m + 1 ≤ n)
      (hr : r.kind = .symbol .rightBrace) :
      DerivesBlock w dialect n (l :: (ts ++ [r])) body

/-- The tokens of a statement. Metadata stands only outside of all blocks, which the flag tells. -/
inductive DerivesStmt (w : Wording) (dialect : Dialect) : Bool → Nat → List Token → Stmt → Prop
  | metadata {n t k o m ts value} (ht : t.kind = .symbol .metadata)
      (h : DerivesExpr w dialect k o m ts value) (hm : w = .written → m + 1 ≤ n)
      (hstatic : value.isStatic = true) :
      DerivesStmt w dialect true n (t :: ts) (.metadata t.pos none value)
  | namedMetadata {n t u word k o m ts value} (ht : t.kind = .symbol .metadata)
      (hu : u.kind = .name word) (h : DerivesExpr w dialect k o m ts value)
      (hm : w = .written → m + 1 ≤ n) (hstatic : value.isStatic = true) :
      DerivesStmt w dialect true n (t :: u :: ts) (.metadata t.pos (some word) value)
  | define {top n t u word isMutable mark k o m ts value}
      (ht : t.kind = (dialect.defining isMutable).1) (hu : u.kind = .name word)
      (hmark : mark.kind = .symbol (dialect.defining isMutable).2)
      (h : DerivesExpr w dialect k o m ts value) (hm : w = .written → m + 1 ≤ n) :
      DerivesStmt w dialect top n (t :: u :: mark :: ts) (.define t.pos word isMutable value)
  | defineFunction {top n t u word ts params body} (ht : t.kind = .symbol .atSign)
      (hu : u.kind = .name word) (h : DerivesFunction w dialect n ts params body) :
      DerivesStmt w dialect top n (t :: u :: ts)
        (.define t.pos word false (.fn t.pos params body))
  | assign {top n k o m ts target t op k' o' m' ts' value}
      (h : DerivesExpr w dialect k o m ts target) (hm : w = .written → m + 1 ≤ n)
      (hplace : target.isPlace = true) (ht : t.assignOp? dialect = some op)
      (h' : DerivesExpr w dialect k' o' m' ts' value) (hm' : w = .written → m' + 1 ≤ n) :
      DerivesStmt w dialect top n (ts ++ t :: ts') (.assign target.pos target op value)
  | out {top n t k o m ts value} (ht : t.kind = .symbol .out)
      (h : DerivesExpr w dialect k o m ts value) (hm : w = .written → m + 1 ≤ n) :
      DerivesStmt w dialect top n (t :: ts) (.out t.pos value)
  | back {top n t} (ht : t.kind = .keyword .returnBack) :
      DerivesStmt w dialect top n [t] (.back t.pos none)
  | backWith {top n t k o m ts value} (ht : t.kind = .keyword .returnBack)
      (h : DerivesExpr w dialect k o m ts value) (hm : w = .written → m + 1 ≤ n)
      (hbreak : w = .written → ∀ u ∈ ts.head?, u.afterBreak = false) :
      DerivesStmt w dialect top n (t :: ts) (.back t.pos (some value))
  | leave {top n t} (ht : t.kind = .keyword .breakOut) :
      DerivesStmt w dialect top n [t] (.leave t.pos)
  | again {top n t} (ht : t.kind = .keyword .continueOn) :
      DerivesStmt w dialect top n [t] (.again t.pos)
  | loop {top n t ts body} (ht : t.kind = .keyword .loop)
      (hb : DerivesBlock w dialect n ts body) :
      DerivesStmt w dialect top n (t :: ts) (.loop t.pos body)
  | each {top n t v u word comma k o m ts items ts' body} (ht : t.kind = .keyword .each)
      (hv : v.kind = (dialect.defining false).1) (hu : u.kind = .name word)
      (hcomma : comma.kind = .symbol .comma) (h : DerivesExpr w dialect k o m ts items)
      (hm : w = .written → m + 1 ≤ n) (hb : DerivesBlock w dialect n ts' body) :
      DerivesStmt w dialect top n (t :: v :: u :: comma :: (ts ++ ts'))
        (.each t.pos word items body)
  | count {top n t v u word comma k o m ts times ts' body} (ht : t.kind = .keyword .forCount)
      (hv : v.kind = (dialect.defining false).1) (hu : u.kind = .name word)
      (hcomma : comma.kind = .symbol .comma) (h : DerivesExpr w dialect k o m ts times)
      (hm : w = .written → m + 1 ≤ n) (hb : DerivesBlock w dialect n ts' body) :
      DerivesStmt w dialect top n (t :: v :: u :: comma :: (ts ++ ts'))
        (.count t.pos word times body)
  | eval {top n k o m ts value} (h : DerivesExpr w dialect k o m ts value)
      (hm : w = .written → m + 1 ≤ n) :
      DerivesStmt w dialect top n ts (.eval value.pos value)

/-- The tokens of a list of statements. In a text, a line break or a semicolon stands between two of
them. -/
inductive DerivesStmts (w : Wording) (dialect : Dialect) :
    Bool → Nat → List Token → List Stmt → Prop
  | nil {top n} : DerivesStmts w dialect top n [] []
  | semicolon {top n t ts body} (hw : w = .written) (ht : t.kind = .symbol .semicolon)
      (h : DerivesStmts w dialect top n ts body) : DerivesStmts w dialect top n (t :: ts) body
  | cons {top n ts s ts' body} (h : DerivesStmt w dialect top n ts s)
      (hs : DerivesStmts w dialect top n ts' body)
      (hsep : w = .written → ∀ t ∈ ts'.head?, t.afterBreak = true ∨ t.kind = .symbol .semicolon) :
      DerivesStmts w dialect top n (ts ++ ts') (s :: body)

end

end ScriptLab.Program
