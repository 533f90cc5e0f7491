import ScriptLab.Program.Parser

/-!
# Parts within a depth

The recursive reading of the depth check: a program passes exactly when each of its statements has a
depth of at most the greatest one that is run.
-/

namespace ScriptLab.Program

open Text (Pos)

namespace Part

/-- Whether a part has at most the given depth. -/
def Within : Nat → Part → Prop
  | 0, _ => False
  | n + 1, p => ∀ c ∈ p.children, c.Within n

theorem Within.mono {m n : Nat} (hmn : m ≤ n) {p : Part} (h : p.Within m) : p.Within n := by
  induction m generalizing n p with
  | zero => exact h.elim
  | succ m ih =>
      obtain ⟨k, rfl⟩ : ∃ k, n = k + 1 := ⟨n - 1, by omega⟩
      intro c hc
      exact ih (by omega) (h c hc)

theorem Within.pos {n : Nat} {p : Part} (h : p.Within n) : 0 < n := by
  cases n with
  | zero => exact h.elim
  | succ n => omega

theorem size_le_sizes {p : Part} {parts : List Part} (h : p ∈ parts) : p.size ≤ sizes parts := by
  induction parts with
  | nil => cases h
  | cons q rest ih =>
      rw [sizes_cons]
      rcases List.mem_cons.1 h with rfl | h
      · exact Nat.le_add_right _ _
      · exact Nat.le_trans (ih h) (Nat.le_add_left _ _)

/-- A part is smaller than the one around it. -/
theorem size_lt_of_mem_children {p child : Part} (h : child ∈ p.children) : child.size < p.size :=
  Nat.lt_of_le_of_lt (size_le_sizes h) p.sizes_children

/-- Parts that have some depth each are within one depth together. -/
theorem exists_forall_within {parts : List Part} (h : ∀ p ∈ parts, ∃ n, p.Within n) :
    ∃ n, ∀ p ∈ parts, p.Within n := by
  induction parts with
  | nil => exact ⟨0, fun _ hp => (List.not_mem_nil hp).elim⟩
  | cons p rest ih =>
      obtain ⟨m, hm⟩ := h p List.mem_cons_self
      obtain ⟨n, hn⟩ := ih fun q hq => h q (List.mem_cons_of_mem _ hq)
      refine ⟨max m n, List.forall_mem_cons.2 ⟨hm.mono (Nat.le_max_left _ _), fun q hq => ?_⟩⟩
      exact (hn q hq).mono (Nat.le_max_right _ _)

/-- Every part has a depth. -/
theorem exists_within (p : Part) : ∃ n, p.Within n := by
  obtain ⟨n, hn⟩ := exists_forall_within fun child (_ : child ∈ p.children) => exists_within child
  exact ⟨n + 1, hn⟩
termination_by p.size
decreasing_by exact size_lt_of_mem_children ‹_›

end Part

theorem firstTooDeepFrom_eq_none_iff (parts : List (Part × Nat)) :
    firstTooDeepFrom parts = none ↔
      ∀ part ∈ parts, part.1.Within (maxTreeDepth + 1 - part.2) := by
  fun_induction firstTooDeepFrom parts with
  | case1 => simp
  | case2 part depth rest hdeep =>
      refine ⟨fun h => (by simp at h), fun h => ?_⟩
      have hpart := (h _ List.mem_cons_self).pos
      have : maxTreeDepth + 1 - depth = 0 := by omega
      omega
  | case3 part depth rest hdeep ih =>
      have hroom : maxTreeDepth + 1 - depth = (maxTreeDepth + 1 - (depth + 1)) + 1 := by omega
      rw [ih, List.forall_mem_append, List.forall_mem_cons]
      refine and_congr ?_ Iff.rfl
      simp only [List.mem_reverse, List.forall_mem_map, hroom]
      exact Iff.rfl

/-- The check lets a program pass whose statements are all within the greatest depth. -/
theorem firstTooDeep_eq_none_iff (program : List Stmt) :
    firstTooDeep program = none ↔ ∀ x ∈ program, (Part.stmt x).Within maxTreeDepth := by
  rw [firstTooDeep, firstTooDeepFrom_eq_none_iff]
  simp [Part.ofStmts]

/-- A text is parsed in three steps: it is cut into tokens, these are parsed, and the depth is checked. -/
theorem parse_ok {dialect : Dialect} {code : String} {program : List Stmt}
    (h : parse dialect code = .ok program) :
    ∃ ts, tokens dialect code = .ok ts ∧ parseTokens dialect ts = .ok program ∧
      firstTooDeep program = none := by
  unfold parse at h
  cases hts : tokens dialect code with
  | error fault =>
      rw [hts] at h
      cases h
  | ok ts =>
      rw [hts] at h
      cases hp : parseTokens dialect ts with
      | error fault =>
          simp only [bind, Except.bind, hp] at h
          cases h
      | ok parsed =>
          simp only [bind, Except.bind, hp] at h
          cases hdeep : firstTooDeep parsed with
          | some pos =>
              simp only [hdeep] at h
              cases h
          | none =>
              simp only [hdeep] at h
              cases h
              exact ⟨ts, rfl, hp, hdeep⟩

/-- A program that is parsed is not too deep. -/
theorem within_of_parse {dialect : Dialect} {code : String} {program : List Stmt}
    (h : parse dialect code = .ok program) :
    ∀ x ∈ program, (Part.stmt x).Within maxTreeDepth := by
  obtain ⟨_, _, _, hdeep⟩ := parse_ok h
  exact (firstTooDeep_eq_none_iff program).1 hdeep

end ScriptLab.Program
