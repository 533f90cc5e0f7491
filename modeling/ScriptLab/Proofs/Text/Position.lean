import ScriptLab.Text.Position

/-!
# Places behind a stretch of text

A stretch of text leads as many lines further as it has line feeds, to the column behind the characters
that follow the last one of them.
-/

namespace ScriptLab.Text.Pos

/-- The place in the same column some lines further down. -/
def below (lines : Nat) (p : Pos) : Pos :=
  ⟨p.line + lines, p.column⟩

theorem line_after (p : Pos) (cs : List Char) : (p.after cs).line = p.line + cs.count '\n' := by
  induction cs generalizing p with
  | nil => rfl
  | cons c cs ih =>
      rw [after_cons, ih, next]
      by_cases h : c = '\n'
      · rw [if_pos h, h, List.count_cons_self, Nat.add_assoc, Nat.add_comm 1]
      · rw [if_neg h, List.count_cons_of_ne (by simpa using h)]

theorem column_after_start (cs : List Char) :
    (start.after cs).column = 1 + (cs.reverse.takeWhile (· != '\n')).length := by
  rw [← cs.reverse_reverse]
  induction cs.reverse with
  | nil => rfl
  | cons c before ih =>
      rw [List.reverse_cons, after_append, after_cons, after_nil, next, List.reverse_append,
        List.reverse_singleton, List.singleton_append]
      by_cases h : c = '\n'
      · rw [if_pos h, List.takeWhile_cons_of_neg (by simp [h])]
        rfl
      · rw [if_neg h, List.takeWhile_cons_of_pos (by simpa using h), List.length_cons, ih]
        rfl

/-- Whether a place comes before another one: on an earlier line, or further left on the same line. -/
def Before (p q : Pos) : Prop :=
  p.line < q.line ∨ p.line = q.line ∧ p.column < q.column

theorem Before.trans {p q r : Pos} (h : p.Before q) (h' : q.Before r) : p.Before r := by
  unfold Before at *
  omega

end ScriptLab.Text.Pos
