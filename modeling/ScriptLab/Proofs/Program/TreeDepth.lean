import ScriptLab.Proofs.Program.Depth

/-!
# The depth check computes the depth

The depth of a tree, by recursion on the tree itself. The check, which walks over the parts with a list
of those still to be visited, lets a program pass exactly when this depth is allowed, and else it names
the place of a part that is one deeper than allowed.
-/

namespace ScriptLab.Program

open Text (Pos)

/-! ## Depth by recursion -/

mutual

/-- The depth of an expression: one more than that of its deepest statement or expression. -/
def Expr.depth : Expr → Nat
  | .null _ => 1
  | .bool .. => 1
  | .num .. => 1
  | .str .. => 1
  | .arr _ items => depthOfExprs items + 1
  | .obj _ entries => depthOfEntries entries + 1
  | .ident .. => 1
  | .fn _ _ body => depthOfStmts body + 1
  | .call _ callee args => max callee.depth (depthOfExprs args) + 1
  | .index _ target index => max target.depth index.depth + 1
  | .prop _ target _ => target.depth + 1
  | .binary _ _ left right => max left.depth right.depth + 1
  | .unary _ _ operand => operand.depth + 1
  | .cond _ arms none => depthOfArms arms + 1
  | .cond _ arms (some body) => max (depthOfArms arms) (depthOfStmts body) + 1

/-- The depth of the deepest of some expressions. -/
def depthOfExprs : List Expr → Nat
  | [] => 0
  | item :: rest => max item.depth (depthOfExprs rest)

/-- The depth of the deepest value of some entries. -/
def depthOfEntries : List (String × Expr) → Nat
  | [] => 0
  | (_, value) :: rest => max value.depth (depthOfEntries rest)

/-- The depth of the deepest condition or body of some arms. -/
def depthOfArms : List (Expr × List Stmt) → Nat
  | [] => 0
  | (cond, body) :: rest => max (max cond.depth (depthOfStmts body)) (depthOfArms rest)

/-- The depth of a statement: one more than that of its deepest statement or expression. -/
def Stmt.depth : Stmt → Nat
  | .metadata _ _ value => value.depth + 1
  | .define _ _ _ value => value.depth + 1
  | .assign _ target _ value => max target.depth value.depth + 1
  | .out _ value => value.depth + 1
  | .back _ none => 1
  | .back _ (some value) => value.depth + 1
  | .leave _ => 1
  | .again _ => 1
  | .loop _ body => depthOfStmts body + 1
  | .each _ _ items body => max items.depth (depthOfStmts body) + 1
  | .count _ _ times body => max times.depth (depthOfStmts body) + 1
  | .eval _ value => value.depth + 1

/-- The depth of the deepest of some statements. -/
def depthOfStmts : List Stmt → Nat
  | [] => 0
  | s :: rest => max s.depth (depthOfStmts rest)

end

namespace Part

/-- The depth of a statement or an expression. -/
def depth : Part → Nat
  | stmt s => s.depth
  | expr e => e.depth

@[simp] theorem depth_stmt (s : Stmt) : (stmt s).depth = s.depth := rfl

@[simp] theorem depth_expr (e : Expr) : (expr e).depth = e.depth := rfl

/-! ## Depth and parts -/

variable {n : Nat}

theorem depthOfStmts_le (body : List Stmt) :
    depthOfStmts body ≤ n ↔ ∀ part ∈ ofStmts body, part.depth ≤ n := by
  induction body with
  | nil => simp [depthOfStmts, ofStmts]
  | cons s rest ih =>
      simp only [ofStmts] at ih
      simp only [depthOfStmts, ofStmts, List.map_cons, List.forall_mem_cons, Nat.max_le, ih,
        depth_stmt]

theorem depthOfExprs_le (items : List Expr) :
    depthOfExprs items ≤ n ↔ ∀ part ∈ ofExprs items, part.depth ≤ n := by
  induction items with
  | nil => simp [depthOfExprs, ofExprs]
  | cons e rest ih =>
      simp only [ofExprs] at ih
      simp only [depthOfExprs, ofExprs, List.map_cons, List.forall_mem_cons, Nat.max_le, ih,
        depth_expr]

theorem depthOfEntries_eq (entries : List (String × Expr)) :
    depthOfEntries entries = depthOfExprs (entries.map Prod.snd) := by
  induction entries with
  | nil => rfl
  | cons entry rest ih => simp only [depthOfEntries, List.map_cons, depthOfExprs, ih]

theorem depthOfArms_le (arms : List (Expr × List Stmt)) :
    depthOfArms arms ≤ n ↔
      ∀ part ∈ arms.flatMap fun arm => expr arm.1 :: ofStmts arm.2, part.depth ≤ n := by
  induction arms with
  | nil => simp [depthOfArms]
  | cons arm rest ih =>
      simp only [depthOfArms, List.flatMap_cons, List.forall_mem_append, List.forall_mem_cons,
        Nat.max_le, ih, depthOfStmts_le, depth_expr]

/-- A part is at most one deeper than a bound on the parts directly inside it. -/
theorem depth_le_succ_iff (p : Part) : p.depth ≤ n + 1 ↔ ∀ child ∈ p.children, child.depth ≤ n := by
  cases p with
  | stmt s =>
      cases s with
      | back pos value => cases value <;> simp [Stmt.depth, children, ofExprs]
      | loop pos body => simp [Stmt.depth, children, depthOfStmts_le]
      | each pos var items body | count pos var items body =>
          simp only [depth_stmt, Stmt.depth, children, Nat.add_le_add_iff_right, Nat.max_le,
            List.forall_mem_cons, depth_expr, depthOfStmts_le]
      | assign pos target op value =>
          rw [depth_stmt, Stmt.depth, Nat.add_le_add_iff_right, Nat.max_le]
          simp [children]
      | _ => simp [Stmt.depth, children]
  | expr e =>
      cases e with
      | arr pos items => simp [Expr.depth, children, depthOfExprs_le]
      | obj pos entries => simp [Expr.depth, children, depthOfEntries_eq, depthOfExprs_le]
      | fn pos params body => simp [Expr.depth, children, depthOfStmts_le]
      | call pos callee args =>
          simp only [depth_expr, Expr.depth, children, Nat.add_le_add_iff_right, Nat.max_le,
            List.forall_mem_cons, depthOfExprs_le]
      | index pos left right | binary pos op left right =>
          rw [depth_expr, Expr.depth, Nat.add_le_add_iff_right, Nat.max_le]
          simp [children]
      | cond pos arms otherwise =>
          cases otherwise with
          | none => simp [Expr.depth, children, depthOfArms_le, ofStmts]
          | some body =>
              simp only [depth_expr, Expr.depth, children, Nat.add_le_add_iff_right, Nat.max_le,
                depthOfArms_le, depthOfStmts_le, Option.getD_some, List.forall_mem_append]
      | _ => simp [Expr.depth, children]

theorem depth_pos (p : Part) : 0 < p.depth := by
  cases p with
  | stmt s =>
      cases s with
      | back pos value => cases value <;> simp [Stmt.depth]
      | _ => simp [Stmt.depth]
  | expr e =>
      cases e with
      | cond pos arms otherwise => cases otherwise <;> simp [Expr.depth]
      | _ => simp [Expr.depth]

/-- To be within a depth is to have at most this depth. -/
theorem within_iff (p : Part) : p.Within n ↔ p.depth ≤ n := by
  induction n generalizing p with
  | zero =>
      have := p.depth_pos
      simp only [Within, Nat.le_zero_eq, false_iff]
      omega
  | succ n ih => simp only [Within, depth_le_succ_iff, ih]

end Part

/-! ## The parts of a program -/

/-- The parts of a program at a depth. A statement of the program itself has depth one. -/
inductive StandsAt (program : List Stmt) : Nat → Part → Prop
  | top {s : Stmt} (h : s ∈ program) : StandsAt program 1 (.stmt s)
  | inside {depth : Nat} {p child : Part} (h : StandsAt program depth p) (hchild : child ∈ p.children) :
      StandsAt program (depth + 1) child

/-- What is still to be visited stands in the program, at most one deeper than allowed. The first part
that is too deep is then deeper by one only. -/
theorem standsAt_of_firstTooDeepFrom {program : List Stmt} {parts : List (Part × Nat)} {pos : Pos}
    (h : firstTooDeepFrom parts = some pos)
    (hparts : ∀ entry ∈ parts, entry.2 ≤ maxTreeDepth + 1 ∧ StandsAt program entry.2 entry.1) :
    ∃ part, StandsAt program (maxTreeDepth + 1) part ∧ part.pos = pos := by
  fun_induction firstTooDeepFrom parts with
  | case1 => cases h
  | case2 part depth rest hdeep =>
      obtain ⟨hle, hstands⟩ := hparts _ List.mem_cons_self
      have hdepth : depth = maxTreeDepth + 1 := Nat.le_antisymm hle hdeep
      exact ⟨part, hdepth ▸ hstands, Option.some.inj h⟩
  | case3 part depth rest hdeep ih =>
      obtain ⟨⟨-, hstands⟩, hrest⟩ := List.forall_mem_cons.1 hparts
      apply ih h
      simp only [List.forall_mem_append, List.mem_reverse, List.forall_mem_map]
      exact ⟨fun child hchild => ⟨by omega, hstands.inside hchild⟩, hrest⟩

/-- The check of a program finds out its depth. It lets the program pass exactly when its depth, counted
over statements and expressions, is allowed. Otherwise the place that it names is that of a statement or
an expression that is one deeper than allowed. -/
theorem firstTooDeep_exact (program : List Stmt) :
    (firstTooDeep program = none ↔ depthOfStmts program ≤ maxTreeDepth) ∧
    ∀ pos, firstTooDeep program = some pos →
      ∃ part, StandsAt program (maxTreeDepth + 1) part ∧ part.pos = pos := by
  refine ⟨?_, fun pos h => standsAt_of_firstTooDeepFrom h ?_⟩
  · rw [firstTooDeep_eq_none_iff, Part.depthOfStmts_le]
    simp [Part.ofStmts, Part.within_iff]
  · intro entry hentry
    simp only [Part.ofStmts, List.map_map, List.mem_reverse, List.mem_map] at hentry
    obtain ⟨s, hs, rfl⟩ := hentry
    exact ⟨Nat.succ_pos maxTreeDepth, .top hs⟩

/-- A tower of negations, each on a line of its own. -/
def tower : Nat → Expr
  | 0 => .null ⟨1, 1⟩
  | n + 1 => .unary ⟨n + 2, 1⟩ .not (tower n)

theorem firstTooDeep_exact_tower :
    let program : List Stmt := [.leave ⟨1, 1⟩, .out ⟨301, 1⟩ (tower 299)]
    depthOfStmts program = 301 ∧ firstTooDeep program = some ⟨45, 1⟩ ∧
      ∃ part, StandsAt program (maxTreeDepth + 1) part ∧ part.pos = ⟨45, 1⟩ := by
  intro program
  have hdeep : firstTooDeep program = some ⟨45, 1⟩ := by decide +kernel
  exact ⟨by decide +kernel, hdeep, (firstTooDeep_exact program).2 _ hdeep⟩

end ScriptLab.Program
