import ScriptLab.Text.Position

/-!
# Syntax trees

A program is a list of statements. Statements and expressions carry the place where they start.
-/

namespace ScriptLab.Program

open Text (Pos)

/-- How an assignment combines the old value with the new one. -/
inductive AssignOp where
  | set
  | add
  | sub
deriving DecidableEq

/-- An operator with two operands. -/
inductive BinaryOp where
  | or
  | and
  | eq
  | ne
  | lt
  | le
  | gt
  | ge
  | add
  | sub
  | mul
  | div
  | rem
deriving DecidableEq

/-- How tightly an operator binds. All operators group to the left. -/
def BinaryOp.precedence : BinaryOp → Nat
  | or => 1
  | and => 2
  | eq | ne => 3
  | lt | le | gt | ge => 4
  | add | sub => 5
  | mul | div | rem => 6

/-- An operator in front of its operand. -/
inductive UnaryOp where
  | not
  | neg
deriving DecidableEq

mutual

/-- A statement. -/
inductive Stmt where
  | metadata (pos : Pos) (name : Option String) (value : Expr)
  | define (pos : Pos) (name : String) (mutable : Bool) (value : Expr)
  | assign (pos : Pos) (target : Expr) (op : AssignOp) (value : Expr)
  | out (pos : Pos) (value : Expr)
  | back (pos : Pos) (value : Option Expr)
  | leave (pos : Pos)
  | again (pos : Pos)
  | loop (pos : Pos) (body : List Stmt)
  | each (pos : Pos) (var : String) (items : Expr) (body : List Stmt)
  | count (pos : Pos) (var : String) (times : Expr) (body : List Stmt)
  | eval (pos : Pos) (value : Expr)

/-- An expression. -/
inductive Expr where
  | null (pos : Pos)
  | bool (pos : Pos) (value : Bool)
  | num (pos : Pos) (value : Float)
  | str (pos : Pos) (value : String)
  | arr (pos : Pos) (items : List Expr)
  | obj (pos : Pos) (entries : List (String × Expr))
  | ident (pos : Pos) (name : String)
  | fn (pos : Pos) (params : List String) (body : List Stmt)
  | call (pos : Pos) (callee : Expr) (args : List Expr)
  | index (pos : Pos) (target : Expr) (index : Expr)
  | prop (pos : Pos) (target : Expr) (name : String)
  | binary (pos : Pos) (op : BinaryOp) (left right : Expr)
  | unary (pos : Pos) (op : UnaryOp) (operand : Expr)
  | cond (pos : Pos) (arms : List (Expr × List Stmt)) (otherwise : Option (List Stmt))

end

/-- Where a statement starts. -/
def Stmt.pos : Stmt → Pos
  | metadata pos .. | define pos .. | assign pos .. | out pos .. | back pos .. | leave pos
  | again pos | loop pos .. | each pos .. | count pos .. | eval pos .. => pos

/-- Where an expression starts. -/
def Expr.pos : Expr → Pos
  | null pos | bool pos .. | num pos .. | str pos .. | arr pos .. | obj pos .. | ident pos ..
  | fn pos .. | call pos .. | index pos .. | prop pos .. | binary pos .. | unary pos ..
  | cond pos .. => pos

mutual

/-- Whether an expression is made of literals only, as metadata has to be. -/
def Expr.isStatic : Expr → Bool
  | .null _ | .bool .. | .num .. | .str .. => true
  | .arr _ items => allStatic items
  | .obj _ entries => entriesStatic entries
  | .unary _ .neg (.num ..) => true
  | _ => false

/-- Whether all expressions of a list are static. -/
def allStatic : List Expr → Bool
  | [] => true
  | item :: rest => item.isStatic && allStatic rest

/-- Whether the values of all entries are static. -/
def entriesStatic : List (String × Expr) → Bool
  | [] => true
  | (_, value) :: rest => value.isStatic && entriesStatic rest

end

/-- Whether a value can be assigned to an expression. -/
def Expr.isPlace : Expr → Bool
  | .ident .. | .index .. | .prop .. => true
  | _ => false

end ScriptLab.Program
