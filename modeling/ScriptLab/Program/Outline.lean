import ScriptLab.Json.Printer
import ScriptLab.Program.Tree

/-!
# Outlines of trees

The outline of a statement or an expression is a parenthesised list: its kind with its place, then
its fields in order. A missing field is a tilde, a list stands in brackets, a pair in parentheses.
-/

namespace ScriptLab.Program

open Text (Pos)

namespace Outline

/-- A kind, its place and its fields. -/
def node (kind : String) (pos : Pos) (fields : List String) : String :=
  "(" ++ " ".intercalate ((kind ++ "@" ++ pos.text) :: fields) ++ ")"

/-- A list of fields. -/
def list (items : List String) : String :=
  "[" ++ " ".intercalate items ++ "]"

/-- A string that may be missing. -/
def string? : Option String → String
  | some s => Json.quote s
  | none => "~"

/-- A truth value. -/
def bool (b : Bool) : String :=
  if b then "true" else "false"

end Outline

open Outline

/-- The name of an assignment in outlines. -/
def AssignOp.label : AssignOp → String
  | set => "Set"
  | add => "Add"
  | sub => "Sub"

/-- The name of an operator in outlines. -/
def BinaryOp.label : BinaryOp → String
  | or => "Or"
  | and => "And"
  | eq => "Eq"
  | ne => "Ne"
  | lt => "Lt"
  | le => "Le"
  | gt => "Gt"
  | ge => "Ge"
  | add => "Add"
  | sub => "Sub"
  | mul => "Mul"
  | div => "Div"
  | rem => "Rem"

/-- The name of an operator in outlines. -/
def UnaryOp.label : UnaryOp → String
  | not => "Not"
  | neg => "Neg"

mutual

/-- The outline of a statement. -/
def Stmt.outline : Stmt → String
  | .metadata pos name value => node "Meta" pos [string? name, value.outline]
  | .define pos name mutable value =>
    node "Def" pos [Json.quote name, bool mutable, value.outline]
  | .assign pos target op value => node "Assign" pos [target.outline, op.label, value.outline]
  | .out pos value => node "Out" pos [value.outline]
  | .back pos (some value) => node "Return" pos [value.outline]
  | .back pos none => node "Return" pos ["~"]
  | .leave pos => node "Break" pos []
  | .again pos => node "Continue" pos []
  | .loop pos body => node "Loop" pos [list (outlines body)]
  | .each pos var items body =>
    node "Each" pos [Json.quote var, items.outline, list (outlines body)]
  | .count pos var times body =>
    node "For" pos [Json.quote var, times.outline, list (outlines body)]
  | .eval pos value => node "Expr" pos [value.outline]

/-- The outline of an expression. -/
def Expr.outline : Expr → String
  | .null pos => node "Null" pos []
  | .bool pos b => node "Bool" pos [Outline.bool b]
  | .num pos x => node "Num" pos [Number.text x]
  | .str pos s => node "Str" pos [Json.quote s]
  | .arr pos items => node "Arr" pos [list (exprOutlines items)]
  | .obj pos entries => node "Obj" pos [list (entryOutlines entries)]
  | .ident pos name => node "Ident" pos [Json.quote name]
  | .fn pos params body =>
    node "Fn" pos [list (params.map Json.quote), list (outlines body)]
  | .call pos callee args => node "Call" pos [callee.outline, list (exprOutlines args)]
  | .index pos target index => node "Index" pos [target.outline, index.outline]
  | .prop pos target name => node "Prop" pos [target.outline, Json.quote name]
  | .binary pos op left right => node "Binary" pos [op.label, left.outline, right.outline]
  | .unary pos op operand => node "Unary" pos [op.label, operand.outline]
  | .cond pos arms (some otherwise) =>
    node "If" pos [list (armOutlines arms), list (outlines otherwise)]
  | .cond pos arms none => node "If" pos [list (armOutlines arms), "~"]

/-- The outlines of statements. -/
def outlines : List Stmt → List String
  | [] => []
  | s :: rest => s.outline :: outlines rest

/-- The outlines of expressions. -/
def exprOutlines : List Expr → List String
  | [] => []
  | e :: rest => e.outline :: exprOutlines rest

/-- The outlines of the entries of an object. -/
def entryOutlines : List (String × Expr) → List String
  | [] => []
  | (key, value) :: rest =>
    ("(" ++ Json.quote key ++ " " ++ value.outline ++ ")") :: entryOutlines rest

/-- The outlines of the arms of a conditional. -/
def armOutlines : List (Expr × List Stmt) → List String
  | [] => []
  | (cond, body) :: rest =>
    ("(" ++ cond.outline ++ " " ++ list (outlines body) ++ ")") :: armOutlines rest

end

end ScriptLab.Program
