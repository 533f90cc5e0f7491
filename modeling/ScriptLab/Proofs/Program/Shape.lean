import Mathlib
import ScriptLab.Proofs.Program.Depth

/-!
# The shape of a tree

What is left of a tree when its positions are changed, and how many statements and expressions it has.
-/

namespace ScriptLab.Program

open Text (Pos)

/-! ## Changing positions -/

section MapPos

variable (f : Pos → Pos)

mutual

/-- An expression with all its positions changed. -/
def Expr.mapPos : Expr → Expr
  | .null pos => .null (f pos)
  | .bool pos value => .bool (f pos) value
  | .num pos value => .num (f pos) value
  | .str pos value => .str (f pos) value
  | .arr pos items => .arr (f pos) (mapPosExprs items)
  | .obj pos entries => .obj (f pos) (mapPosEntries entries)
  | .ident pos name => .ident (f pos) name
  | .fn pos params body => .fn (f pos) params (mapPosStmts body)
  | .call pos callee args => .call (f pos) callee.mapPos (mapPosExprs args)
  | .index pos target index => .index (f pos) target.mapPos index.mapPos
  | .prop pos target name => .prop (f pos) target.mapPos name
  | .binary pos op left right => .binary (f pos) op left.mapPos right.mapPos
  | .unary pos op operand => .unary (f pos) op operand.mapPos
  | .cond pos arms none => .cond (f pos) (mapPosArms arms) none
  | .cond pos arms (some body) => .cond (f pos) (mapPosArms arms) (some (mapPosStmts body))

def mapPosExprs : List Expr → List Expr
  | [] => []
  | item :: rest => item.mapPos :: mapPosExprs rest

def mapPosEntries : List (String × Expr) → List (String × Expr)
  | [] => []
  | (key, value) :: rest => (key, value.mapPos) :: mapPosEntries rest

def mapPosArms : List (Expr × List Stmt) → List (Expr × List Stmt)
  | [] => []
  | (cond, body) :: rest => (cond.mapPos, mapPosStmts body) :: mapPosArms rest

/-- A statement with all its positions changed. -/
def Stmt.mapPos : Stmt → Stmt
  | .metadata pos name? value => .metadata (f pos) name? value.mapPos
  | .define pos name isMutable value => .define (f pos) name isMutable value.mapPos
  | .assign pos target op value => .assign (f pos) target.mapPos op value.mapPos
  | .out pos value => .out (f pos) value.mapPos
  | .back pos none => .back (f pos) none
  | .back pos (some value) => .back (f pos) (some value.mapPos)
  | .leave pos => .leave (f pos)
  | .again pos => .again (f pos)
  | .loop pos body => .loop (f pos) (mapPosStmts body)
  | .each pos var items body => .each (f pos) var items.mapPos (mapPosStmts body)
  | .count pos var times body => .count (f pos) var times.mapPos (mapPosStmts body)
  | .eval pos value => .eval (f pos) value.mapPos

def mapPosStmts : List Stmt → List Stmt
  | [] => []
  | s :: rest => s.mapPos :: mapPosStmts rest

end

end MapPos

/-- Puts everything at the start of the text. -/
def erase (_ : Pos) : Pos := .start

/-- Statements that are equal up to positions. -/
def SameShape (program program' : List Stmt) : Prop :=
  mapPosStmts erase program = mapPosStmts erase program'

mutual

theorem Expr.isStatic_mapPos (f : Pos → Pos) : ∀ e : Expr, (e.mapPos f).isStatic = e.isStatic
  | .null _ | .bool .. | .num .. | .str .. | .ident .. | .fn .. | .call .. | .index .. | .prop ..
  | .binary .. | .cond _ _ none | .cond _ _ (some _) => rfl
  | .arr _ items => allStatic_mapPos f items
  | .obj _ entries => entriesStatic_mapPos f entries
  | .unary _ op operand => by cases op <;> cases operand <;> first | rfl | (rename_i o; cases o <;> rfl)

theorem allStatic_mapPos (f : Pos → Pos) :
    ∀ items : List Expr, allStatic (mapPosExprs f items) = allStatic items
  | [] => rfl
  | item :: rest => by
      rw [mapPosExprs, allStatic, allStatic, item.isStatic_mapPos f, allStatic_mapPos f rest]

theorem entriesStatic_mapPos (f : Pos → Pos) :
    ∀ entries : List (String × Expr), entriesStatic (mapPosEntries f entries) = entriesStatic entries
  | [] => rfl
  | (_, value) :: rest => by
      rw [mapPosEntries, entriesStatic, entriesStatic, value.isStatic_mapPos f,
        entriesStatic_mapPos f rest]

end

theorem Expr.isPlace_mapPos (f : Pos → Pos) (e : Expr) : (e.mapPos f).isPlace = e.isPlace := by
  cases e with
  | cond pos arms otherwise => cases otherwise <;> rfl
  | _ => rfl

/-! ## Counting nodes -/

mutual

/-- The number of statements and expressions that an expression is made of. -/
def Expr.nodes : Expr → Nat
  | .null _ | .bool .. | .num .. | .str .. | .ident .. => 1
  | .arr _ items => nodesOfExprs items + 1
  | .obj _ entries => nodesOfEntries entries + 1
  | .fn _ _ body => nodesOfStmts body + 1
  | .call _ callee args => callee.nodes + nodesOfExprs args + 1
  | .index _ target index => target.nodes + index.nodes + 1
  | .prop _ target _ => target.nodes + 1
  | .binary _ _ left right => left.nodes + right.nodes + 1
  | .unary _ _ operand => operand.nodes + 1
  | .cond _ arms none => nodesOfArms arms + 1
  | .cond _ arms (some body) => nodesOfArms arms + nodesOfStmts body + 1

def nodesOfExprs : List Expr → Nat
  | [] => 0
  | item :: rest => item.nodes + nodesOfExprs rest

def nodesOfEntries : List (String × Expr) → Nat
  | [] => 0
  | (_, value) :: rest => value.nodes + nodesOfEntries rest

def nodesOfArms : List (Expr × List Stmt) → Nat
  | [] => 0
  | (cond, body) :: rest => cond.nodes + nodesOfStmts body + nodesOfArms rest

/-- The number of statements and expressions that a statement is made of. -/
def Stmt.nodes : Stmt → Nat
  | .metadata _ _ value | .define _ _ _ value | .out _ value | .back _ (some value)
  | .eval _ value => value.nodes + 1
  | .assign _ target _ value => target.nodes + value.nodes + 1
  | .back _ none | .leave _ | .again _ => 1
  | .loop _ body => nodesOfStmts body + 1
  | .each _ _ items body => items.nodes + nodesOfStmts body + 1
  | .count _ _ times body => times.nodes + nodesOfStmts body + 1

/-- The number of statements and expressions that a program is made of. -/
def nodesOfStmts : List Stmt → Nat
  | [] => 0
  | s :: rest => s.nodes + nodesOfStmts rest

end

mutual

theorem Expr.nodes_mapPos (f : Pos → Pos) : ∀ e : Expr, (e.mapPos f).nodes = e.nodes
  | .null _ | .bool .. | .num .. | .str .. | .ident .. => rfl
  | .arr _ items => congrArg (· + 1) (nodesOfExprs_mapPos f items)
  | .obj _ entries => congrArg (· + 1) (nodesOfEntries_mapPos f entries)
  | .fn _ _ body => congrArg (· + 1) (nodesOfStmts_mapPos f body)
  | .call _ callee args => by
      rw [Expr.mapPos, Expr.nodes, Expr.nodes, callee.nodes_mapPos f, nodesOfExprs_mapPos f args]
  | .index _ target index => by
      rw [Expr.mapPos, Expr.nodes, Expr.nodes, target.nodes_mapPos f, index.nodes_mapPos f]
  | .prop _ target _ => congrArg (· + 1) (target.nodes_mapPos f)
  | .binary _ _ left right => by
      rw [Expr.mapPos, Expr.nodes, Expr.nodes, left.nodes_mapPos f, right.nodes_mapPos f]
  | .unary _ _ operand => congrArg (· + 1) (operand.nodes_mapPos f)
  | .cond _ arms none => congrArg (· + 1) (nodesOfArms_mapPos f arms)
  | .cond _ arms (some body) => by
      rw [Expr.mapPos, Expr.nodes, Expr.nodes, nodesOfArms_mapPos f arms, nodesOfStmts_mapPos f body]

theorem nodesOfExprs_mapPos (f : Pos → Pos) :
    ∀ items : List Expr, nodesOfExprs (mapPosExprs f items) = nodesOfExprs items
  | [] => rfl
  | item :: rest => by
      rw [mapPosExprs, nodesOfExprs, nodesOfExprs, item.nodes_mapPos f, nodesOfExprs_mapPos f rest]

theorem nodesOfEntries_mapPos (f : Pos → Pos) :
    ∀ entries : List (String × Expr), nodesOfEntries (mapPosEntries f entries) = nodesOfEntries entries
  | [] => rfl
  | (_, value) :: rest => by
      rw [mapPosEntries, nodesOfEntries, nodesOfEntries, value.nodes_mapPos f,
        nodesOfEntries_mapPos f rest]

theorem nodesOfArms_mapPos (f : Pos → Pos) :
    ∀ arms : List (Expr × List Stmt), nodesOfArms (mapPosArms f arms) = nodesOfArms arms
  | [] => rfl
  | (cond, body) :: rest => by
      rw [mapPosArms, nodesOfArms, nodesOfArms, cond.nodes_mapPos f, nodesOfStmts_mapPos f body,
        nodesOfArms_mapPos f rest]

theorem Stmt.nodes_mapPos (f : Pos → Pos) : ∀ s : Stmt, (s.mapPos f).nodes = s.nodes
  | .metadata _ _ value | .define _ _ _ value | .out _ value | .back _ (some value)
  | .eval _ value => congrArg (· + 1) (value.nodes_mapPos f)
  | .assign _ target _ value => by
      rw [Stmt.mapPos, Stmt.nodes, Stmt.nodes, target.nodes_mapPos f, value.nodes_mapPos f]
  | .back _ none | .leave _ | .again _ => rfl
  | .loop _ body => congrArg (· + 1) (nodesOfStmts_mapPos f body)
  | .each _ _ items body => by
      rw [Stmt.mapPos, Stmt.nodes, Stmt.nodes, items.nodes_mapPos f, nodesOfStmts_mapPos f body]
  | .count _ _ times body => by
      rw [Stmt.mapPos, Stmt.nodes, Stmt.nodes, times.nodes_mapPos f, nodesOfStmts_mapPos f body]

theorem nodesOfStmts_mapPos (f : Pos → Pos) :
    ∀ body : List Stmt, nodesOfStmts (mapPosStmts f body) = nodesOfStmts body
  | [] => rfl
  | s :: rest => by
      rw [mapPosStmts, nodesOfStmts, nodesOfStmts, s.nodes_mapPos f, nodesOfStmts_mapPos f rest]

end

theorem SameShape.nodes {program program' : List Stmt} (h : SameShape program program') :
    nodesOfStmts program = nodesOfStmts program' := by
  rw [← nodesOfStmts_mapPos erase, ← nodesOfStmts_mapPos erase program', h]

/-! ## A tree is no deeper than it has nodes -/

namespace Part

/-- The number of statements and expressions that a part is made of. -/
def nodes : Part → Nat
  | stmt s => s.nodes
  | expr e => e.nodes

theorem sum_ofStmts (body : List Stmt) :
    ((ofStmts body).map nodes).sum = nodesOfStmts body := by
  induction body with
  | nil => rfl
  | cons s rest ih => simpa [ofStmts, nodesOfStmts, nodes] using ih

theorem sum_ofExprs (items : List Expr) :
    ((ofExprs items).map nodes).sum = nodesOfExprs items := by
  induction items with
  | nil => rfl
  | cons e rest ih => simpa [ofExprs, nodesOfExprs, nodes] using ih

theorem sum_entries (entries : List (String × Expr)) :
    ((ofExprs (entries.map Prod.snd)).map nodes).sum = nodesOfEntries entries := by
  induction entries with
  | nil => rfl
  | cons entry rest ih => simpa [ofExprs, nodesOfEntries, nodes] using ih

theorem sum_arms (arms : List (Expr × List Stmt)) :
    ((arms.flatMap fun arm => expr arm.1 :: ofStmts arm.2).map nodes).sum = nodesOfArms arms := by
  induction arms with
  | nil => rfl
  | cons arm rest ih =>
      rw [List.flatMap_cons, List.map_append, List.sum_append, ih, List.map_cons, List.sum_cons,
        sum_ofStmts]
      rfl

/-- The nodes of a part are those of its parts, and itself. -/
theorem nodes_eq (p : Part) : p.nodes = (p.children.map nodes).sum + 1 := by
  cases p with
  | stmt s =>
      cases s with
      | back pos value => cases value <;> rfl
      | loop pos body => simp [children, sum_ofStmts, nodes, Stmt.nodes]
      | each pos var items body => simp [children, sum_ofStmts, nodes, Stmt.nodes]
      | count pos var times body => simp [children, sum_ofStmts, nodes, Stmt.nodes]
      | _ => simp [children, nodes, Stmt.nodes]
  | expr e =>
      cases e with
      | arr pos items => simp [children, sum_ofExprs, nodes, Expr.nodes]
      | obj pos entries => simp only [children, sum_entries, nodes, Expr.nodes]
      | fn pos params body => simp [children, sum_ofStmts, nodes, Expr.nodes]
      | call pos callee args => simp [children, sum_ofExprs, nodes, Expr.nodes]
      | cond pos arms otherwise =>
          cases otherwise with
          | none => simp only [children, List.map_append, List.sum_append, sum_arms, sum_ofStmts, nodes,
              Expr.nodes, Option.getD_none, nodesOfStmts, Nat.add_zero]
          | some body => simp only [children, List.map_append, List.sum_append, sum_arms, sum_ofStmts,
              nodes, Expr.nodes, Option.getD_some]
      | _ => simp [children, nodes, Expr.nodes]

theorem nodes_le_of_mem {p c : Part} (h : c ∈ p.children) : c.nodes + 1 ≤ p.nodes := by
  rw [nodes_eq p]
  exact Nat.succ_le_succ (List.le_sum_of_mem (List.mem_map_of_mem h))

theorem within_of_nodes_le {n : Nat} {p : Part} (h : p.nodes ≤ n) : p.Within n := by
  induction n generalizing p with
  | zero =>
      have := nodes_eq p
      omega
  | succ n ih =>
      intro c hc
      have := nodes_le_of_mem hc
      exact ih (by omega)

end Part

theorem nodes_le_nodesOfStmts {body : List Stmt} {x : Stmt} (hx : x ∈ body) :
    x.nodes ≤ nodesOfStmts body := by
  have hmem : (Part.stmt x).nodes ∈ (Part.ofStmts body).map Part.nodes :=
    List.mem_map_of_mem (List.mem_map_of_mem hx)
  rw [← Part.sum_ofStmts]
  exact List.le_sum_of_mem hmem

/-- A program with few nodes is not too deep. -/
theorem firstTooDeep_of_nodes_le {program : List Stmt}
    (h : nodesOfStmts program ≤ maxTreeDepth) : firstTooDeep program = none :=
  (firstTooDeep_eq_none_iff program).2 fun _ hx =>
    Part.within_of_nodes_le (Nat.le_trans (nodes_le_nodesOfStmts hx) h)

end ScriptLab.Program
