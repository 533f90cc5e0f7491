import ScriptLab.Program.Tree

/-!
# The depth of a tree

A statement or an expression is one deeper than the deepest of its parts. The check that a program is
not too deep walks over its parts with a list of those still to be visited, the last part first.
-/

namespace ScriptLab.Program

open Text (Pos)

/-- The greatest depth of a program that is run. -/
def maxTreeDepth : Nat := 256

/-- A statement or an expression. -/
inductive Part where
  | stmt (s : Stmt)
  | expr (e : Expr)

namespace Part

/-- Where a part starts. -/
def pos : Part → Pos
  | stmt s => s.pos
  | expr e => e.pos

/-- The parts of a list of statements. -/
def ofStmts (body : List Stmt) : List Part :=
  body.map stmt

/-- The parts of a list of expressions. -/
def ofExprs (items : List Expr) : List Part :=
  items.map expr

/-- The statements and expressions directly inside a part, in the order of the program. -/
def children : Part → List Part
  | stmt (.metadata _ _ value) => [expr value]
  | stmt (.define _ _ _ value) => [expr value]
  | stmt (.assign _ target _ value) => [expr target, expr value]
  | stmt (.out _ value) => [expr value]
  | stmt (.back _ value) => ofExprs value.toList
  | stmt (.leave _) => []
  | stmt (.again _) => []
  | stmt (.loop _ body) => ofStmts body
  | stmt (.each _ _ items body) => expr items :: ofStmts body
  | stmt (.count _ _ times body) => expr times :: ofStmts body
  | stmt (.eval _ value) => [expr value]
  | expr (.null _) => []
  | expr (.bool ..) => []
  | expr (.num ..) => []
  | expr (.str ..) => []
  | expr (.arr _ items) => ofExprs items
  | expr (.obj _ entries) => ofExprs (entries.map Prod.snd)
  | expr (.ident ..) => []
  | expr (.fn _ _ body) => ofStmts body
  | expr (.call _ callee args) => expr callee :: ofExprs args
  | expr (.index _ target index) => [expr target, expr index]
  | expr (.prop _ target _) => [expr target]
  | expr (.binary _ _ left right) => [expr left, expr right]
  | expr (.unary _ _ operand) => [expr operand]
  | expr (.cond _ arms otherwise) =>
    arms.flatMap (fun arm => expr arm.1 :: ofStmts arm.2) ++ ofStmts (otherwise.getD [])

/-- The size that a part has as a term. -/
noncomputable def size : Part → Nat
  | stmt s => sizeOf s
  | expr e => sizeOf e

/-- The sizes of several parts together. -/
noncomputable def sizes : List Part → Nat
  | [] => 0
  | part :: rest => part.size + sizes rest

theorem sizes_nil : sizes [] = 0 := rfl

theorem sizes_cons (p : Part) (parts : List Part) : sizes (p :: parts) = p.size + sizes parts := rfl

theorem sizes_append (ps qs : List Part) : sizes (ps ++ qs) = sizes ps + sizes qs := by
  induction ps with
  | nil => simp [sizes_nil]
  | cons p rest ih => simp only [List.cons_append, sizes_cons, ih, Nat.add_assoc]

theorem sizes_reverse (ps : List Part) : sizes ps.reverse = sizes ps := by
  induction ps with
  | nil => rfl
  | cons p rest ih =>
    simp only [List.reverse_cons, sizes_append, ih, sizes_cons, sizes_nil]
    omega

theorem sizes_ofStmts (body : List Stmt) : sizes (ofStmts body) < sizeOf body := by
  induction body with
  | nil => simp [ofStmts, sizes_nil]
  | cons s rest ih =>
    simp only [ofStmts, List.map_cons, sizes_cons, size, List.cons.sizeOf_spec] at *
    omega

theorem sizes_ofExprs (items : List Expr) : sizes (ofExprs items) < sizeOf items := by
  induction items with
  | nil => simp [ofExprs, sizes_nil]
  | cons e rest ih =>
    simp only [ofExprs, List.map_cons, sizes_cons, size, List.cons.sizeOf_spec] at *
    omega

theorem sizes_entries (entries : List (String × Expr)) :
    sizes (ofExprs (entries.map Prod.snd)) < sizeOf entries := by
  induction entries with
  | nil => simp [ofExprs, sizes_nil]
  | cons e rest ih =>
    obtain ⟨k, e⟩ := e
    simp only [ofExprs, List.map_cons, sizes_cons, size, List.cons.sizeOf_spec,
      Prod.mk.sizeOf_spec] at *
    omega

theorem sizes_arms (arms : List (Expr × List Stmt)) :
    sizes (arms.flatMap fun arm => expr arm.1 :: ofStmts arm.2) < sizeOf arms := by
  induction arms with
  | nil => simp [sizes_nil]
  | cons arm rest ih =>
    obtain ⟨e, body⟩ := arm
    have := sizes_ofStmts body
    simp only [List.flatMap_cons, sizes_append, sizes_cons, size, List.cons.sizeOf_spec,
      Prod.mk.sizeOf_spec] at *
    omega

/-- The parts of a part are smaller than it, all of them together. -/
theorem sizes_children (p : Part) : sizes p.children < p.size := by
  cases p with
  | stmt s =>
    cases s with
    | back pos value =>
      cases value <;> (simp [children, ofExprs, sizes, size]; try omega)
    | loop pos body =>
      have := sizes_ofStmts body
      simp [children, size]; omega
    | each pos var items body =>
      have := sizes_ofStmts body
      simp [children, size, sizes_cons]; omega
    | count pos var times body =>
      have := sizes_ofStmts body
      simp [children, size, sizes_cons]; omega
    | _ => simp [children, sizes, size] <;> omega
  | expr e =>
    cases e with
    | arr pos items =>
      have := sizes_ofExprs items
      simp [children, size]; omega
    | obj pos entries =>
      have := sizes_entries entries
      simp [children, size]; omega
    | fn pos params body =>
      have := sizes_ofStmts body
      simp [children, size]; omega
    | call pos callee args =>
      have := sizes_ofExprs args
      simp [children, size, sizes_cons]; omega
    | cond pos arms otherwise =>
      have := sizes_arms arms
      cases otherwise with
      | none => simp [children, size, ofStmts] at *; omega
      | some body =>
        have := sizes_ofStmts body
        simp [children, size, sizes_append] at *; omega
    | _ => simp [children, sizes, size] <;> omega

end Part

/-- The place of the first part met that is deeper than allowed. Each part comes with its depth. -/
def firstTooDeepFrom : List (Part × Nat) → Option Pos
  | [] => none
  | (part, depth) :: rest =>
    if maxTreeDepth < depth then some part.pos
    else firstTooDeepFrom ((part.children.map (·, depth + 1)).reverse ++ rest)
termination_by parts => Part.sizes (parts.map Prod.fst)
decreasing_by
  have := part.sizes_children
  simp only [List.map_append, List.map_reverse, List.map_map, Part.sizes_append,
    Part.sizes_reverse, List.map_cons, Part.sizes_cons]
  have h : (part.children.map (Prod.fst ∘ fun x => (x, depth + 1))) = part.children := by
    simp [Function.comp_def]
  rw [h]
  omega

/-- The place of a part of a program that is deeper than allowed, the last statement first. -/
def firstTooDeep (program : List Stmt) : Option Pos :=
  firstTooDeepFrom ((Part.ofStmts program).map (·, 1)).reverse

end ScriptLab.Program
