import ScriptLab.Proofs.Program.Completeness
import ScriptLab.Proofs.Program.Moving
import ScriptLab.Proofs.Program.Soundness

/-!
# Programs below one another

A text that is parsed and another one on the lines below it are parsed as the statements of the one and
those of the other, moved down. Nothing of the first program changes what comes after it, so that any
number of programs can stand below one another.
-/

namespace ScriptLab.Program

open Text (Pos)

variable {dialect : Dialect}

/-! ## The depth of a moved program -/

namespace Part

variable (f : Pos → Pos)

/-- The part with all its positions changed. -/
def mapPos : Part → Part
  | stmt s => stmt (s.mapPos f)
  | expr e => expr (e.mapPos f)

theorem ofStmts_mapPos (body : List Stmt) :
    ofStmts (mapPosStmts f body) = (ofStmts body).map (mapPos f) := by
  induction body with
  | nil => rfl
  | cons s rest ih => exact congrArg (stmt (s.mapPos f) :: ·) ih

theorem ofExprs_mapPos (items : List Expr) :
    ofExprs (mapPosExprs f items) = (ofExprs items).map (mapPos f) := by
  induction items with
  | nil => rfl
  | cons e rest ih => exact congrArg (expr (e.mapPos f) :: ·) ih

theorem entries_mapPos (entries : List (String × Expr)) :
    ofExprs ((mapPosEntries f entries).map Prod.snd) =
      (ofExprs (entries.map Prod.snd)).map (mapPos f) := by
  induction entries with
  | nil => rfl
  | cons entry rest ih => exact congrArg (expr (entry.2.mapPos f) :: ·) ih

theorem arms_mapPos (arms : List (Expr × List Stmt)) :
    (mapPosArms f arms).flatMap (fun arm => expr arm.1 :: ofStmts arm.2) =
      (arms.flatMap fun arm => expr arm.1 :: ofStmts arm.2).map (mapPos f) := by
  induction arms with
  | nil => rfl
  | cons arm rest ih =>
      rw [mapPosArms, List.flatMap_cons, List.flatMap_cons, List.map_append, ih, ofStmts_mapPos]
      rfl

/-- The parts of a moved part are its parts, moved. -/
theorem children_mapPos (p : Part) : (p.mapPos f).children = p.children.map (mapPos f) := by
  cases p with
  | stmt s =>
      cases s with
      | back pos value => cases value <;> rfl
      | loop pos body => exact ofStmts_mapPos f body
      | each pos var items body => exact congrArg (expr (items.mapPos f) :: ·) (ofStmts_mapPos f body)
      | count pos var times body => exact congrArg (expr (times.mapPos f) :: ·) (ofStmts_mapPos f body)
      | _ => rfl
  | expr e =>
      cases e with
      | arr pos items => exact ofExprs_mapPos f items
      | obj pos entries => exact entries_mapPos f entries
      | fn pos params body => exact ofStmts_mapPos f body
      | call pos callee args => exact congrArg (expr (callee.mapPos f) :: ·) (ofExprs_mapPos f args)
      | cond pos arms otherwise =>
          rw [mapPos, Expr.mapPos_cond, children, children, arms_mapPos, List.map_append,
            ← ofStmts_mapPos]
          cases otherwise <;> rfl
      | _ => rfl

theorem within_mapPos {n : Nat} {p : Part} : (p.mapPos f).Within n ↔ p.Within n := by
  induction n generalizing p with
  | zero => exact Iff.rfl
  | succ n ih =>
      rw [Within, Within, children_mapPos, List.forall_mem_map]
      exact forall₂_congr fun _ _ => ih

end Part

/-- The depth of a program does not depend on where it stands. -/
theorem firstTooDeep_mapPos (f : Pos → Pos) {program : List Stmt} :
    firstTooDeep (mapPosStmts f program) = none ↔ firstTooDeep program = none := by
  have hparts (body : List Stmt) :
      firstTooDeep body = none ↔ ∀ p ∈ Part.ofStmts body, p.Within maxTreeDepth := by
    rw [firstTooDeep_eq_none_iff, Part.ofStmts, List.forall_mem_map]
  rw [hparts, hparts, Part.ofStmts_mapPos, List.forall_mem_map]
  exact forall₂_congr fun _ _ => Part.within_mapPos f

/-- The tokens of a text that is parsed are a derivation of its program and the mark of the end. -/
theorem derivesStmts_of_parse {code : String} {program : List Stmt}
    (h : parse dialect code = .ok program) :
    ∃ body last, tokens dialect code = .ok (body ++ [last]) ∧ last.kind = .done ∧
      DerivesStmts .written dialect true maxDepth body program ∧ firstTooDeep program = none := by
  obtain ⟨ts, hts, hp, hdepth⟩ := parse_ok h
  obtain ⟨t, us, rfl, hended⟩ := ended_tokens hts
  obtain ⟨body, last, heq, hlast, hd⟩ := parseTokens_sound hended hp
  exact ⟨body, last, by rw [hts, heq], hlast, hd, hdepth⟩

end ScriptLab.Program
