import ScriptLab.Proofs.Program.Lines

/-!
# What stands between lexemes

A gap is white space and comments. A line comment is closed by a line feed, except that the one that the
text ends with may be open; a block comment is closed by the first mark that does so. What is cut off a
text as a gap is the longest one that it starts with.
-/

namespace ScriptLab.Program

/-- White space and closed comments. -/
inductive Trivia : List Char → Prop
  | nil : Trivia []
  | blank {c cs} (hc : Text.isBlank c = true) (h : Trivia cs) : Trivia (c :: cs)
  | line {body cs} (hbody : '\n' ∉ body) (h : Trivia cs) : Trivia ('/' :: '/' :: (body ++ '\n' :: cs))
  | block {body cs} (hbody : ¬['*', '/'] <:+: body) (h : Trivia cs) :
      Trivia ('/' :: '*' :: (body ++ '*' :: '/' :: cs))

/-- What a text may end with: trivia, and a line comment that nothing closes. -/
inductive Trailing : List Char → Prop
  | closed {cs} (h : Trivia cs) : Trailing cs
  | line {before body} (h : Trivia before) (hbody : '\n' ∉ body) :
      Trailing (before ++ '/' :: '/' :: body)

/-- A text that starts neither with white space nor with a comment. -/
structure Stands (cs : List Char) : Prop where
  blank : ∀ c ∈ cs.head?, Text.isBlank c = false
  line : ¬['/', '/'] <+: cs
  block : ¬['/', '*'] <+: cs

namespace Trivia

theorem append {cs ds : List Char} (h : Trivia cs) (h' : Trivia ds) : Trivia (cs ++ ds) := by
  induction h with
  | nil => exact h'
  | blank hc _ ih => exact .blank hc ih
  | @line body cs hbody _ ih =>
      rw [List.cons_append, List.cons_append, List.append_assoc, List.cons_append]
      exact .line hbody ih
  | @block body cs hbody _ ih =>
      rw [List.cons_append, List.cons_append, List.append_assoc, List.cons_append, List.cons_append]
      exact .block hbody ih

end Trivia

/-! ## Cutting off comments -/

theorem cutGap_blank_cons {c : Char} {seen cs : List Char} (hc : Text.isBlank c = true) :
    cutGap .blank seen (c :: cs) = cutGap .blank (c :: seen) cs := by
  have hslash : c ≠ '/' := by
    rintro rfl
    cases hc
  rw [cutGap, if_pos hc]
  · exact fun _ h => absurd h hslash
  · exact fun _ h => absurd h hslash

theorem cutGap_line_cons {c : Char} {seen cs : List Char} (hc : c ≠ '\n') :
    cutGap .line seen (c :: cs) = cutGap .line (c :: seen) cs := by
  rw [cutGap]
  exact hc

theorem cutGap_block_cons {c : Char} {before seen cs : List Char} (hc : ¬['*', '/'] <+: c :: cs) :
    cutGap (.block before) seen (c :: cs) = cutGap (.block before) (c :: seen) cs := by
  rw [cutGap]
  rintro ds rfl rfl
  exact hc ⟨ds, rfl⟩

theorem cutGap_lineBody {seen body : List Char} (hbody : '\n' ∉ body) (rest : List Char) :
    cutGap .line seen (body ++ rest) = cutGap .line (body.reverse ++ seen) rest := by
  induction body generalizing seen with
  | nil => rfl
  | cons c body ih =>
      rw [List.mem_cons, not_or] at hbody
      rw [List.cons_append, cutGap_line_cons (Ne.symm hbody.1), ih hbody.2]
      simp

/-- Neither the inside of a comment nor its start is the mark that closes it. -/
theorem cutGap_blockBody {before seen body : List Char} (hbody : ¬['*', '/'] <:+: body) (rest : List Char)
    (hrest : ∀ ds, rest ≠ '/' :: ds) :
    cutGap (.block before) seen (body ++ rest) = cutGap (.block before) (body.reverse ++ seen) rest := by
  induction body generalizing seen with
  | nil => rfl
  | cons c body ih =>
      have hmark : ¬['*', '/'] <+: c :: (body ++ rest) := by
        intro h
        rw [List.cons_prefix_cons] at h
        obtain ⟨rfl, h⟩ := h
        cases body with
        | nil =>
            obtain ⟨ds, hds⟩ := h
            exact hrest ds hds.symm
        | cons d body =>
            obtain ⟨rfl, -⟩ := List.cons_prefix_cons.1 h
            exact hbody ⟨[], body, rfl⟩
      rw [List.cons_append, cutGap_block_cons hmark, ih fun h => hbody (h.trans (List.suffix_cons c body).isInfix)]
      simp

/-- A gap is cut off whatever follows it. -/
theorem cutGap_trivia {gap : List Char} (h : Trivia gap) (seen rest : List Char) :
    cutGap .blank seen (gap ++ rest) = cutGap .blank (gap.reverse ++ seen) rest := by
  induction h generalizing seen with
  | nil => rfl
  | blank hc _ ih =>
      rw [List.cons_append, cutGap_blank_cons hc, ih]
      simp
  | line hbody _ ih =>
      simp only [List.cons_append, List.append_assoc]
      rw [cutGap, cutGap_lineBody hbody, cutGap, ih]
      simp
  | block hbody _ ih =>
      simp only [List.cons_append, List.append_assoc]
      rw [cutGap, cutGap_blockBody hbody _ (fun _ h => absurd (List.cons.inj h).1 (by decide)), cutGap, ih]
      simp

theorem cutGap_stands {c : Char} {seen cs : List Char} (h : Stands (c :: cs)) :
    cutGap .blank seen (c :: cs) = .ok (seen.reverse, c :: cs) := by
  rw [cutGap, if_neg]
  · simp [h.blank c rfl]
  · rintro ds rfl rfl
    exact h.line ⟨ds, rfl⟩
  · rintro ds rfl rfl
    exact h.block ⟨ds, rfl⟩

theorem cutGap_trailing {cs : List Char} (h : Trailing cs) : cutGap .blank [] cs = .ok (cs, []) := by
  cases h with
  | closed h =>
      have hcut := cutGap_trivia h [] []
      have hend (seen : List Char) : cutGap .blank seen [] = .ok (seen.reverse, []) := rfl
      rw [List.append_nil, hend] at hcut
      simpa using hcut
  | @line before body h hbody =>
      have hend (seen : List Char) : cutGap .line seen [] = .ok (seen.reverse, []) := rfl
      have hline (seen : List Char) : cutGap .line seen body = .ok (seen.reverse ++ body, []) := by
        rw [← List.append_nil body, cutGap_lineBody hbody, hend]
        simp
      rw [cutGap_trivia h, cutGap, hline]
      simp

theorem cutGap_unclosed {gap body : List Char} (h : Trivia gap) (hbody : ¬['*', '/'] <:+: body) :
    cutGap .blank [] (gap ++ '/' :: '*' :: body) = .error gap := by
  have hopen : cutGap (.block gap.reverse) ('*' :: '/' :: gap.reverse) body = .error gap := by
    rw [← List.append_nil body, cutGap_blockBody hbody [] nofun, cutGap, List.reverse_reverse]
  rw [cutGap_trivia h, cutGap, List.append_nil, hopen]

/-! ## The longest gap -/

theorem exists_closingMark {cs : List Char} (h : ['*', '/'] <:+: cs) :
    ∃ body rest, cs = body ++ '*' :: '/' :: rest ∧ ¬['*', '/'] <:+: body := by
  induction cs with
  | nil => exact absurd h (by decide)
  | cons c cs ih =>
      by_cases hmark : ['*', '/'] <+: c :: cs
      · obtain ⟨rest, hrest⟩ := hmark
        exact ⟨[], rest, hrest.symm, by decide⟩
      · obtain ⟨body, rest, rfl, hbody⟩ := ih ((List.infix_cons_iff.1 h).resolve_left hmark)
        refine ⟨c :: body, rest, rfl, fun h => ?_⟩
        rcases List.infix_cons_iff.1 h with h | h
        · exact hmark (h.trans (List.prefix_append (c :: body) _))
        · exact hbody h

/-- The ways in which a text can start: with a gap and something else, with a gap that it ends with, or
with a gap and a comment that nothing closes. -/
inductive Starts : List Char → Prop
  | stands {gap c rest} (hgap : Trivia gap) (h : Stands (c :: rest)) : Starts (gap ++ c :: rest)
  | trailing {cs} (h : Trailing cs) : Starts cs
  | unclosed {gap body} (hgap : Trivia gap) (h : ¬['*', '/'] <:+: body) :
      Starts (gap ++ '/' :: '*' :: body)

theorem Starts.behind {first cs : List Char} (hfirst : Trivia first) (h : Starts cs) :
    Starts (first ++ cs) := by
  cases h with
  | stands hgap h =>
      rw [← List.append_assoc]
      exact .stands (hfirst.append hgap) h
  | trailing h =>
      cases h with
      | closed h => exact .trailing (.closed (hfirst.append h))
      | line h hbody =>
          rw [← List.append_assoc]
          exact .trailing (.line (hfirst.append h) hbody)
  | unclosed hgap h =>
      rw [← List.append_assoc]
      exact .unclosed (hfirst.append hgap) h

theorem starts (cs : List Char) : Starts cs := by
  induction hn : cs.length using Nat.strongRecOn generalizing cs with
  | ind n ih =>
      have shorter {ds : List Char} (h : ds.length < cs.length) : Starts ds := ih _ (hn ▸ h) ds rfl
      by_cases hline : ['/', '/'] <+: cs
      · obtain ⟨rest, rfl⟩ := hline
        by_cases hclosed : '\n' ∈ rest
        · obtain ⟨body, ds, rfl, hbody⟩ := List.eq_append_cons_of_mem hclosed
          have hds : Starts ds := shorter (by simp; omega)
          simpa using hds.behind (.line hbody .nil)
        · exact .trailing (.line .nil hclosed)
      by_cases hblock : ['/', '*'] <+: cs
      · obtain ⟨rest, rfl⟩ := hblock
        by_cases hclosed : ['*', '/'] <:+: rest
        · obtain ⟨body, ds, rfl, hbody⟩ := exists_closingMark hclosed
          have hds : Starts ds := shorter (by simp; omega)
          simpa using hds.behind (.block hbody .nil)
        · exact .unclosed .nil hclosed
      cases cs with
      | nil => exact .trailing (.closed .nil)
      | cons c cs =>
          by_cases hc : Text.isBlank c = true
          · exact (shorter (by simp)).behind (.blank hc .nil)
          · refine .stands .nil ⟨?_, hline, hblock⟩
            rintro _ ⟨⟩
            simpa using hc

theorem trivia_of_cutGap {cs gap rest : List Char} {c : Char}
    (h : cutGap .blank [] cs = .ok (gap, c :: rest)) : Trivia gap ∧ Stands (c :: rest) := by
  cases starts cs with
  | stands hgap hstands =>
      rw [cutGap_trivia hgap, cutGap_stands hstands] at h
      cases h
      simpa using ⟨hgap, hstands⟩
  | trailing htrailing =>
      rw [cutGap_trailing htrailing] at h
      cases h
  | unclosed hgap hbody =>
      rw [cutGap_unclosed hgap hbody] at h
      cases h

theorem trailing_of_cutGap {cs gap : List Char} (h : cutGap .blank [] cs = .ok (gap, [])) :
    Trailing gap := by
  cases starts cs with
  | stands hgap hstands =>
      rw [cutGap_trivia hgap, cutGap_stands hstands] at h
      cases h
  | trailing htrailing =>
      rw [cutGap_trailing htrailing] at h
      cases h
      exact htrailing
  | unclosed hgap hbody =>
      rw [cutGap_unclosed hgap hbody] at h
      cases h

theorem unclosed_of_cutGap {cs before : List Char} (h : cutGap .blank [] cs = .error before) :
    ∃ body, cs = before ++ '/' :: '*' :: body ∧ Trivia before ∧ ¬['*', '/'] <:+: body := by
  cases starts cs with
  | stands hgap hstands =>
      rw [cutGap_trivia hgap, cutGap_stands hstands] at h
      cases h
  | trailing htrailing =>
      rw [cutGap_trailing htrailing] at h
      cases h
  | unclosed hgap hbody =>
      rw [cutGap_unclosed hgap hbody] at h
      cases h
      exact ⟨_, rfl, hgap, hbody⟩

end ScriptLab.Program
