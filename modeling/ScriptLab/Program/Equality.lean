import ScriptLab.Program.Tree

/-!
# Equality of trees

Whether two trees are equal is decided by walking over both of them at once. What a text is parsed to
can so be compared with a tree that is written out.
-/

namespace ScriptLab.Program

mutual

/-- Whether two statements are the same. -/
def Stmt.same : Stmt → Stmt → Bool
  | .metadata p name x, .metadata q name' y => p = q && name = name' && x.same y
  | .define p name isMutable x, .define q name' isMutable' y =>
    p = q && name = name' && isMutable = isMutable' && x.same y
  | .assign p x op v, .assign q y op' w => p = q && x.same y && op = op' && v.same w
  | .out p x, .out q y => p = q && x.same y
  | .back p none, .back q none => p = q
  | .back p (some x), .back q (some y) => p = q && x.same y
  | .leave p, .leave q => p = q
  | .again p, .again q => p = q
  | .loop p body, .loop q body' => p = q && sameStmts body body'
  | .each p var x body, .each q var' y body' =>
    p = q && var = var' && x.same y && sameStmts body body'
  | .count p var x body, .count q var' y body' =>
    p = q && var = var' && x.same y && sameStmts body body'
  | .eval p x, .eval q y => p = q && x.same y
  | _, _ => false
termination_by structural x => x

/-- Whether two expressions are the same. -/
def Expr.same : Expr → Expr → Bool
  | .null p, .null q => p = q
  | .bool p b, .bool q c => p = q && b = c
  | .num p x, .num q y => p = q && x = y
  | .str p s, .str q t => p = q && s = t
  | .arr p items, .arr q items' => p = q && sameExprs items items'
  | .obj p entries, .obj q entries' => p = q && sameEntries entries entries'
  | .ident p name, .ident q name' => p = q && name = name'
  | .fn p params body, .fn q params' body' => p = q && params = params' && sameStmts body body'
  | .call p x args, .call q y args' => p = q && x.same y && sameExprs args args'
  | .index p x i, .index q y j => p = q && x.same y && i.same j
  | .prop p x name, .prop q y name' => p = q && x.same y && name = name'
  | .binary p op x v, .binary q op' y w => p = q && op = op' && x.same y && v.same w
  | .unary p op x, .unary q op' y => p = q && op = op' && x.same y
  | .cond p arms none, .cond q arms' none => p = q && sameArms arms arms'
  | .cond p arms (some body), .cond q arms' (some body') =>
    p = q && sameArms arms arms' && sameStmts body body'
  | _, _ => false
termination_by structural x => x

/-- Whether two lists of statements are the same. -/
def sameStmts : List Stmt → List Stmt → Bool
  | [], [] => true
  | x :: xs, y :: ys => x.same y && sameStmts xs ys
  | _, _ => false
termination_by structural xs => xs

/-- Whether two lists of expressions are the same. -/
def sameExprs : List Expr → List Expr → Bool
  | [], [] => true
  | x :: xs, y :: ys => x.same y && sameExprs xs ys
  | _, _ => false
termination_by structural xs => xs

/-- Whether two lists of entries are the same. -/
def sameEntries : List (String × Expr) → List (String × Expr) → Bool
  | [], [] => true
  | (key, x) :: xs, (key', y) :: ys => key = key' && x.same y && sameEntries xs ys
  | _, _ => false
termination_by structural xs => xs

/-- Whether two lists of arms are the same. -/
def sameArms : List (Expr × List Stmt) → List (Expr × List Stmt) → Bool
  | [], [] => true
  | (x, body) :: xs, (y, body') :: ys => x.same y && sameStmts body body' && sameArms xs ys
  | _, _ => false
termination_by structural xs => xs

end

/-- Trees that are the same are equal, by induction on the walk over both of them. -/
theorem eq_of_same :
    (∀ x y : Stmt, x.same y = true → x = y) ∧
      (∀ xs ys : List Stmt, sameStmts xs ys = true → xs = ys) ∧
      (∀ x y : Expr, x.same y = true → x = y) ∧
      (∀ xs ys : List (Expr × List Stmt), sameArms xs ys = true → xs = ys) ∧
      (∀ xs ys : List (String × Expr), sameEntries xs ys = true → xs = ys) ∧
      ∀ xs ys : List Expr, sameExprs xs ys = true → xs = ys := by
  -- Where the walk goes on, the parts are equal; where it stops, the trees are not the same.
  apply Stmt.same.mutual_induct <;> intros <;>
    simp_all [Stmt.same, Expr.same, sameStmts, sameExprs, sameEntries, sameArms]

mutual

theorem Stmt.same_self (x : Stmt) : x.same x = true := by
  cases x with
  | metadata pos name value | define pos name isMutable value | out pos value | eval pos value =>
    simp [Stmt.same, value.same_self]
  | assign pos target op value => simp [Stmt.same, target.same_self, value.same_self]
  | back pos value =>
    cases value with
    | none => simp [Stmt.same]
    | some value => simp [Stmt.same, value.same_self]
  | leave | again => simp [Stmt.same]
  | loop pos body => simp [Stmt.same, sameStmts_self body]
  | each pos var items body | count pos var items body =>
    simp [Stmt.same, items.same_self, sameStmts_self body]

theorem Expr.same_self (x : Expr) : x.same x = true := by
  cases x with
  | null | bool | num | str | ident => simp [Expr.same]
  | arr pos items => simp [Expr.same, sameExprs_self items]
  | obj pos entries => simp [Expr.same, sameEntries_self entries]
  | fn pos params body => simp [Expr.same, sameStmts_self body]
  | call pos callee args => simp [Expr.same, callee.same_self, sameExprs_self args]
  | index pos left right | binary pos op left right =>
    simp [Expr.same, left.same_self, right.same_self]
  | prop pos target name | unary pos op target => simp [Expr.same, target.same_self]
  | cond pos arms otherwise =>
    cases otherwise with
    | none => simp [Expr.same, sameArms_self arms]
    | some body => simp [Expr.same, sameArms_self arms, sameStmts_self body]

theorem sameStmts_self (xs : List Stmt) : sameStmts xs xs = true := by
  cases xs with
  | nil => rfl
  | cons x xs => simp [sameStmts, x.same_self, sameStmts_self xs]

theorem sameExprs_self (xs : List Expr) : sameExprs xs xs = true := by
  cases xs with
  | nil => rfl
  | cons x xs => simp [sameExprs, x.same_self, sameExprs_self xs]

theorem sameEntries_self (xs : List (String × Expr)) : sameEntries xs xs = true := by
  cases xs with
  | nil => rfl
  | cons entry xs =>
    obtain ⟨key, x⟩ := entry
    simp [sameEntries, x.same_self, sameEntries_self xs]

theorem sameArms_self (xs : List (Expr × List Stmt)) : sameArms xs xs = true := by
  cases xs with
  | nil => rfl
  | cons arm xs =>
    obtain ⟨x, body⟩ := arm
    simp [sameArms, x.same_self, sameStmts_self body, sameArms_self xs]

end

instance : DecidableEq Stmt := fun x y =>
  decidable_of_iff (x.same y = true) ⟨eq_of_same.1 x y, fun h => h ▸ x.same_self⟩

instance : DecidableEq Expr := fun x y =>
  decidable_of_iff (x.same y = true) ⟨eq_of_same.2.2.1 x y, fun h => h ▸ x.same_self⟩

end ScriptLab.Program
