import ScriptLab.Proofs.Program.Lexemes

/-!
# Texts in pieces

A text is cut into gaps and lexemes in turn, from the left: each gap is white space and comments, and each
lexeme is the longest token that the text behind the gap starts with. The tokens of the text are those of
the pieces. There are none where the pieces lead to a comment or a string that nothing closes, or to
something that starts with no token.
-/

namespace ScriptLab.Text.Pos

/-- The place behind a text: one line more than it has line feeds, and one column more than it has
characters behind the last of them. -/
def behind (cs : List Char) : Pos :=
  ⟨1 + cs.count '\n', 1 + (cs.reverse.takeWhile (· != '\n')).length⟩

theorem after_start (cs : List Char) : start.after cs = behind cs := by
  rw [behind, ← column_after_start cs]
  exact congrArg (Pos.mk · (start.after cs).column) (line_after start cs)

end ScriptLab.Text.Pos

namespace ScriptLab.Program

open Text (Pos)

variable {dialect : Dialect}

/-- A gap and the lexeme behind it. -/
structure Piece where
  gap : List Char
  chars : List Char
  kind : TokenKind

/-- The text that pieces make up with what stands behind them. -/
def joined : List Piece → List Char → List Char
  | [], last => last
  | piece :: rest, last => piece.gap ++ (piece.chars ++ joined rest last)

/-- Pieces that a text is cut into, from the left, up to what is given as its last part. -/
inductive Cut (dialect : Dialect) (last : List Char) : List Piece → Prop
  | nil : Cut dialect last []
  | cons {piece rest} (hgap : Trivia piece.gap) (hstands : Stands (piece.chars ++ joined rest last))
      (hlexeme : Longest dialect piece.chars piece.kind (joined rest last))
      (h : Cut dialect last rest) : Cut dialect last (piece :: rest)

/-- Where no token can be cut off: a gap leads to a comment or a string that nothing closes, or to a
character at which no token starts. -/
inductive Stuck (dialect : Dialect) : Cause → List Char → List Char → Prop
  | comment {gap body} (hgap : Trivia gap) (hopen : ¬['*', '/'] <:+: body) :
      Stuck dialect .openComment gap ('/' :: '*' :: body)
  | string {gap body} (hgap : Trivia gap)
      (hopen : ∀ inside value rest, Quoted inside value → body ≠ inside ++ '"' :: rest) :
      Stuck dialect .openString gap ('"' :: body)
  | char {gap c rest} (hgap : Trivia gap) (hstands : Stands (c :: rest)) (hquote : c ≠ '"')
      (hnone : ∀ chars kind, Spelled dialect chars kind → ¬chars <+: c :: rest) :
      Stuck dialect (.strayChar c) gap (c :: rest)

/-- The tokens of pieces behind a text, and the mark of the end: each stands where its lexeme does, and is
behind a line break if there is a line feed in its gap. -/
def tokensOf (before : List Char) : List Piece → List Char → List Token
  | [], last => [⟨.done, .behind (before ++ last), last.contains '\n'⟩]
  | piece :: rest, last =>
    ⟨piece.kind, .behind (before ++ piece.gap), piece.gap.contains '\n'⟩ ::
      tokensOf (before ++ piece.gap ++ piece.chars) rest last

/-! ## Cutting one piece after the other -/

theorem Cut.cutGap_cons {last : List Char} {piece : Piece} {rest : List Piece}
    (h : Cut dialect last (piece :: rest)) :
    ∃ c cs, cutGap .blank [] (joined (piece :: rest) last) = .ok (piece.gap, c :: cs) ∧
      cutLexeme dialect c cs = .ok ⟨piece.kind, piece.chars, joined rest last⟩ := by
  cases h with
  | cons hgap hstands hlexeme _ =>
      obtain ⟨c, cs, hchars⟩ := List.exists_cons_of_ne_nil hlexeme.spelled.ne_nil
      rw [hchars, List.cons_append] at hstands
      refine ⟨c, cs ++ joined rest last, ?_, ?_⟩
      · rw [joined, cutGap_trivia hgap, hchars, List.cons_append, cutGap_stands hstands]
        simp
      · exact cutLexeme_ok_iff.2 ⟨by rw [hchars, List.cons_append], hlexeme⟩

theorem cutTokens_cons {last : List Char} {piece : Piece} {rest : List Piece}
    (h : Cut dialect last (piece :: rest)) (before : List Char) (cut : List Token) :
    cutTokens dialect (Pos.start.after before) cut (joined (piece :: rest) last) =
      cutTokens dialect (Pos.start.after (before ++ piece.gap ++ piece.chars))
        (⟨piece.kind, .behind (before ++ piece.gap), piece.gap.contains '\n'⟩ :: cut)
        (joined rest last) := by
  obtain ⟨c, cs, hgap, hlexeme⟩ := h.cutGap_cons
  rw [cutTokens_lexeme _ _ hgap hlexeme, ← Pos.after_start, Pos.after_append, Pos.after_append]

/-- Pieces up to the end of the text give their tokens. -/
theorem cutTokens_cut {last : List Char} {pieces : List Piece} (h : Cut dialect last pieces)
    (hlast : Trailing last) (before : List Char) (cut : List Token) :
    cutTokens dialect (Pos.start.after before) cut (joined pieces last) =
      .ok (cut.reverse ++ tokensOf before pieces last) := by
  induction pieces generalizing before cut with
  | nil =>
      rw [joined, cutTokens_done _ _ (cutGap_trailing hlast), ← Pos.after_append, Pos.after_start,
        List.reverse_cons]
      rfl
  | cons piece rest ih =>
      rw [cutTokens_cons h]
      cases h with
      | cons _ _ _ h =>
          rw [ih h, List.reverse_cons, List.append_assoc]
          rfl

theorem Stuck.cutTokens {cause : Cause} {gap rest : List Char} (h : Stuck dialect cause gap rest)
    (before : List Char) (cut : List Token) :
    cutTokens dialect (Pos.start.after before) cut (gap ++ rest) =
      .error ⟨cause, .behind (before ++ gap)⟩ := by
  have hpos : (Pos.start.after before).after gap = .behind (before ++ gap) := by
    rw [← Pos.after_append, Pos.after_start]
  have refused {c : Char} {cs : List Char} (hgap : Trivia gap) (hstands : Stands (c :: cs))
      (hlexeme : cutLexeme dialect c cs = .error cause) :
      Program.cutTokens dialect (Pos.start.after before) cut (gap ++ c :: cs) =
        .error ⟨cause, .behind (before ++ gap)⟩ := by
    have hcut : cutGap .blank [] (gap ++ c :: cs) = .ok (gap, c :: cs) := by
      rw [cutGap_trivia hgap, cutGap_stands hstands]
      simp
    rw [cutTokens_refused _ _ hcut hlexeme, hpos]
  cases h with
  | comment hgap hopen => rw [cutTokens_openComment _ _ (cutGap_unclosed hgap hopen), hpos]
  | @string gap body hgap hopen =>
      refine refused hgap ⟨?_, ?_, ?_⟩ ?_
      · rintro _ ⟨⟩
        decide
      · exact fun h => absurd (List.cons_prefix_cons.1 h).1 (by decide)
      · exact fun h => absurd (List.cons_prefix_cons.1 h).1 (by decide)
      · unfold cutLexeme
        rw [if_neg (by decide), if_neg (by decide), if_pos rfl]
        cases hcut : cutString [] ['"'] body with
        | none => rfl
        | some cut =>
            obtain ⟨inside, value, hquoted, hbody, -⟩ := quoted_of_cutString hcut
            exact (hopen inside value _ hquoted hbody).elim
  | char hgap hstands hquote hnone =>
      exact refused hgap hstands (cutLexeme_error_iff.2 ⟨hnone, (if_neg hquote).symm⟩)

/-- Pieces up to where no token can be cut off give no tokens. -/
theorem cutTokens_stuck {cause : Cause} {gap rest : List Char} {pieces : List Piece}
    (h : Cut dialect (gap ++ rest) pieces) (hstuck : Stuck dialect cause gap rest) (before : List Char)
    (cut : List Token) :
    cutTokens dialect (Pos.start.after before) cut (joined pieces (gap ++ rest)) =
      .error ⟨cause, .behind (before ++ joined pieces gap)⟩ := by
  induction pieces generalizing before cut with
  | nil => exact hstuck.cutTokens before cut
  | cons piece pieces ih =>
      rw [cutTokens_cons h]
      cases h with
      | cons _ _ _ h =>
          rw [ih h]
          simp [joined]

/-- Every text is cut into pieces up to its end, or up to where no token can be cut off. -/
theorem exists_cut (dialect : Dialect) (cs : List Char) :
    (∃ pieces last, cs = joined pieces last ∧ Cut dialect last pieces ∧ Trailing last) ∨
      ∃ pieces cause gap rest, cs = joined pieces (gap ++ rest) ∧ Cut dialect (gap ++ rest) pieces ∧
        Stuck dialect cause gap rest := by
  induction hn : cs.length using Nat.strongRecOn generalizing cs with
  | ind n ih =>
      cases hgap : cutGap .blank [] cs with
      | error before =>
          obtain ⟨body, rfl, htrivia, hopen⟩ := unclosed_of_cutGap hgap
          exact .inr ⟨[], _, before, _, rfl, .nil, .comment htrivia hopen⟩
      | ok cut =>
          obtain ⟨gap, behind⟩ := cut
          have hcs : gap ++ behind = cs := by simpa using cutGap_append hgap
          cases behind with
          | nil =>
              rw [List.append_nil] at hcs
              exact .inl ⟨[], cs, rfl, .nil, hcs ▸ trailing_of_cutGap hgap⟩
          | cons c rest =>
              obtain ⟨htrivia, hstands⟩ := trivia_of_cutGap hgap
              cases hlexeme : cutLexeme dialect c rest with
              | error cause =>
                  obtain ⟨hnone, hcause⟩ := cutLexeme_error_iff.1 hlexeme
                  refine .inr ⟨[], cause, gap, c :: rest, hcs.symm, .nil, ?_⟩
                  by_cases hquote : c = '"'
                  · rw [hcause, if_pos hquote, hquote]
                    refine .string htrivia fun inside value behind hquoted heq => ?_
                    refine hnone _ _ (.text hquoted) ⟨behind, ?_⟩
                    simp [hquote, heq]
                  · rw [hcause, if_neg hquote]
                    exact .char htrivia hstands hquote hnone
              | ok lexeme =>
                  obtain ⟨happend, hlongest⟩ := cutLexeme_ok_iff.1 hlexeme
                  have hshorter : lexeme.rest.length < n := by
                    have hle := cutLexeme_rest_length hlexeme
                    rw [← hn, ← hcs, List.length_append, List.length_cons]
                    omega
                  rw [← happend] at hcs hstands
                  rcases ih _ hshorter lexeme.rest rfl with ⟨pieces, last, hrest, hcut, hlast⟩ |
                    ⟨pieces, cause, gap', rest', hrest, hcut, hstuck⟩
                  · rw [hrest] at hcs hstands hlongest
                    exact .inl ⟨⟨gap, lexeme.chars, lexeme.kind⟩ :: pieces, last, hcs.symm,
                      .cons htrivia hstands hlongest hcut, hlast⟩
                  · rw [hrest] at hcs hstands hlongest
                    exact .inr ⟨⟨gap, lexeme.chars, lexeme.kind⟩ :: pieces, cause, gap', rest', hcs.symm,
                      .cons htrivia hstands hlongest hcut, hstuck⟩

/-! ## Lexemes by themselves -/

theorem Stands.of_append {cs ds : List Char} (h : Stands (cs ++ ds)) (hcs : cs ≠ []) : Stands cs := by
  refine ⟨fun c hc => h.blank c ?_, fun hline => h.line (hline.trans (List.prefix_append _ _)),
    fun hblock => h.block (hblock.trans (List.prefix_append _ _))⟩
  obtain ⟨d, ds, rfl⟩ := List.exists_cons_of_ne_nil hcs
  exact hc

theorem Spelled.longest {chars : List Char} {kind : TokenKind} (h : Spelled dialect chars kind) :
    Longest dialect chars kind [] where
  spelled := h
  longest _ hprefix := by
    rw [List.append_nil] at hprefix
    exact hprefix.length_le

theorem Spelled.ne_done {chars : List Char} {kind : TokenKind} (h : Spelled dialect chars kind) :
    kind ≠ .done := by
  cases h with
  | word => exact (belongs_wordKind dialect _).2
  | whole | point | text | symbol => exact TokenKind.noConfusion

/-- What holds of a piece that a text is cut into: the gap is a gap, and the lexeme is one character or
more and has the same token by itself. -/
structure Piece.Sound (dialect : Dialect) (piece : Piece) : Prop where
  gap : Trivia piece.gap
  chars : piece.chars ≠ []
  kind : piece.kind ≠ .done
  alone : tokens dialect (String.ofList piece.chars) =
    .ok [⟨piece.kind, .start, false⟩, ⟨.done, .behind piece.chars, false⟩]

theorem Cut.sound {last : List Char} {pieces : List Piece} (h : Cut dialect last pieces) :
    ∀ piece ∈ pieces, piece.Sound dialect := by
  induction h with
  | nil => nofun
  | @cons piece rest hgap hstands hlexeme _ ih =>
      refine List.forall_mem_cons.2 ⟨⟨hgap, hlexeme.spelled.ne_nil, hlexeme.spelled.ne_done, ?_⟩, ih⟩
      have hstands' := hstands.of_append hlexeme.spelled.ne_nil
      have halone : Cut dialect [] [⟨[], piece.chars, piece.kind⟩] := by
        refine .cons .nil ?_ hlexeme.spelled.longest .nil
        simpa [joined] using hstands'
      have hstart : Pos.behind [] = .start := rfl
      have htokens := cutTokens_cut halone (.closed .nil) [] []
      simpa [tokens, joined, tokensOf, Pos.after_nil, hstart] using htokens

/-! ## Whole texts -/

theorem tokens_joined {code : String} {pieces : List Piece} {last : List Char}
    (hcode : code.toList = joined pieces last) (h : Cut dialect last pieces) (hlast : Trailing last) :
    tokens dialect code = .ok (tokensOf [] pieces last) := by
  rw [tokens, hcode]
  exact cutTokens_cut h hlast [] []

theorem tokens_stuck {code : String} {pieces : List Piece} {cause : Cause} {gap rest : List Char}
    (hcode : code.toList = joined pieces (gap ++ rest)) (h : Cut dialect (gap ++ rest) pieces)
    (hstuck : Stuck dialect cause gap rest) :
    tokens dialect code = .error ⟨cause, .behind (joined pieces gap)⟩ := by
  rw [tokens, hcode]
  exact cutTokens_stuck h hstuck [] []

theorem cut_of_tokens {code : String} {ts : List Token} (h : tokens dialect code = .ok ts) :
    ∃ pieces last, code.toList = joined pieces last ∧ Cut dialect last pieces ∧ Trailing last ∧
      ts = tokensOf [] pieces last := by
  rcases exists_cut dialect code.toList with ⟨pieces, last, hcode, hcut, hlast⟩ |
    ⟨pieces, cause, gap, rest, hcode, hcut, hstuck⟩
  · rw [tokens_joined hcode hcut hlast] at h
    cases h
    exact ⟨pieces, last, hcode, hcut, hlast, rfl⟩
  · rw [tokens_stuck hcode hcut hstuck] at h
    cases h

end ScriptLab.Program
