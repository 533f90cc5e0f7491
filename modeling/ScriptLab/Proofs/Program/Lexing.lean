import ScriptLab.Proofs.Program.Reading

/-!
# The tokens of a text

Every token that a text is cut into is one of its dialect, and the last one, and no other, marks the
end.
-/

namespace ScriptLab.Program

open Text (Pos)

variable {dialect : Dialect}

/-! ## Cutting off one token -/

section

variable {cs : List Char} (pos : Pos) (cut : List Token)

theorem cutTokens_openComment {before : List Char} (hg : cutGap .blank [] cs = .error before) :
    cutTokens dialect pos cut cs = .error ⟨.openComment, pos.after before⟩ := by
  rw [cutTokens]
  split
  next h =>
    rw [hg] at h
    cases h
    rfl
  next h =>
    rw [hg] at h
    cases h
  next h =>
    rw [hg] at h
    cases h

theorem cutTokens_refused {gap rest : List Char} {c : Char} {cause : Cause}
    (hg : cutGap .blank [] cs = .ok (gap, c :: rest)) (hl : cutLexeme dialect c rest = .error cause) :
    cutTokens dialect pos cut cs = .error ⟨cause, pos.after gap⟩ := by
  rw [cutTokens]
  split
  next h =>
    rw [hg] at h
    cases h
  next h =>
    rw [hg] at h
    cases h
  next h =>
    rw [hg] at h
    cases h
    split
    next h =>
      rw [hl] at h
      cases h
      rfl
    next h =>
      rw [hl] at h
      cases h

theorem cutTokens_done {gap : List Char} (hg : cutGap .blank [] cs = .ok (gap, [])) :
    cutTokens dialect pos cut cs =
      .ok (⟨.done, pos.after gap, gap.contains '\n'⟩ :: cut).reverse := by
  rw [cutTokens]
  split
  next h =>
    rw [hg] at h
    cases h
  next h =>
    rw [hg] at h
    cases h
    rfl
  next h =>
    rw [hg] at h
    cases h

theorem cutTokens_lexeme {gap rest : List Char} {c : Char} {lexeme : Lexeme}
    (hg : cutGap .blank [] cs = .ok (gap, c :: rest)) (hl : cutLexeme dialect c rest = .ok lexeme) :
    cutTokens dialect pos cut cs =
      cutTokens dialect ((pos.after gap).after lexeme.chars)
        (⟨lexeme.kind, pos.after gap, gap.contains '\n'⟩ :: cut) lexeme.rest := by
  conv => lhs; rw [cutTokens]
  split
  next h =>
    rw [hg] at h
    cases h
  next h =>
    rw [hg] at h
    cases h
  next h =>
    rw [hg] at h
    cases h
    split
    next h =>
      rw [hl] at h
      cases h
    next h =>
      rw [hl] at h
      cases h
      rfl

end

/-! ## Tokens of the dialect -/

theorem mem_of_cutSymbol? {symbols : List Symbol} {cs : List Char} {lexeme : Lexeme}
    (h : cutSymbol? symbols cs = some lexeme) : ∃ s ∈ symbols, lexeme.kind = .symbol s := by
  induction symbols with
  | nil => cases h
  | cons s rest ih =>
      unfold cutSymbol? at h
      dsimp only at h
      split at h
      · cases h
        exact ⟨s, List.mem_cons_self, rfl⟩
      · obtain ⟨s', hs', hk⟩ := ih h
        exact ⟨s', List.mem_cons_of_mem _ hs', hk⟩

theorem belongs_wordKind (dialect : Dialect) (word : List Char) :
    (wordKind dialect word).Belongs dialect ∧ wordKind dialect word ≠ .done := by
  unfold wordKind
  split
  · next keyword h =>
      refine ⟨?_, TokenKind.noConfusion⟩
      have hspelling := List.find?_some h
      show (keyword.spelling? dialect).isSome = true
      rw [beq_iff_eq] at hspelling
      rw [hspelling]
      rfl
  · exact ⟨trivial, TokenKind.noConfusion⟩

theorem kind_cutNumber (cs : List Char) : ∃ x, (cutNumber cs).kind = .number x := by
  unfold cutNumber
  dsimp only
  split
  · split
    · exact ⟨_, rfl⟩
    · exact ⟨_, rfl⟩
  · exact ⟨_, rfl⟩

/-- A lexeme is a token of the dialect, and none of them is the end. -/
theorem belongs_cutLexeme {c : Char} {cs : List Char} {lexeme : Lexeme}
    (h : cutLexeme dialect c cs = .ok lexeme) :
    lexeme.kind.Belongs dialect ∧ lexeme.kind ≠ .done := by
  unfold cutLexeme at h
  split at h
  · cases h
    exact belongs_wordKind dialect _
  · split at h
    · cases h
      obtain ⟨x, hx⟩ := kind_cutNumber (c :: cs)
      rw [hx]
      exact ⟨trivial, TokenKind.noConfusion⟩
    · split at h
      · split at h
        · cases h
          exact ⟨trivial, TokenKind.noConfusion⟩
        · cases h
      · split at h
        · next heq =>
            cases h
            obtain ⟨s, hs, hk⟩ := mem_of_cutSymbol? heq
            rw [hk]
            exact ⟨hs, TokenKind.noConfusion⟩
        · cases h

/-- Tokens cut behind others are those others and more, up to the mark of the end. -/
theorem ended_cutTokens {pos : Pos} {cut ts : List Token} {cs : List Char}
    (h : cutTokens dialect pos cut cs = .ok ts) :
    ∃ t us, ts = cut.reverse ++ t :: us ∧ Ended dialect t us := by
  fun_induction cutTokens dialect pos cut cs with
  | case1 => cases h
  | case2 pos cut cs gap hgap =>
      cases h
      exact ⟨_, [], List.reverse_cons, .last rfl⟩
  | case3 => cases h
  | case4 pos cut cs gap c rest hgap lexeme hlexeme ih =>
      obtain ⟨t, us, hts, hended⟩ := ih h
      obtain ⟨hd, hne⟩ := belongs_cutLexeme hlexeme
      refine ⟨⟨lexeme.kind, pos.after gap, gap.contains '\n'⟩, t :: us, ?_, .cons hne hd hended⟩
      rw [hts, List.reverse_cons, List.append_assoc]
      rfl

theorem ended_tokens {code : String} {ts : List Token} (h : tokens dialect code = .ok ts) :
    ∃ t us, ts = t :: us ∧ Ended dialect t us :=
  ended_cutTokens (show cutTokens dialect .start [] code.toList = .ok ts from h)

end ScriptLab.Program
