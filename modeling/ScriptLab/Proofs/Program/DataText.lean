import ScriptLab.Proofs.Number.Exact
import ScriptLab.Proofs.Program.Printing

/-!
# Texts of data in pieces

The display form of a value is put together from lexemes with one space or none between them. Each of
them is cut off as it was written, since what may stand behind a value does not go on with it.
-/

namespace ScriptLab.Program

/-! ## Pieces side by side -/

theorem joined_append (pieces others : List Piece) (last : List Char) :
    joined (pieces ++ others) last = joined pieces (joined others last) := by
  induction pieces with
  | nil => rfl
  | cons piece rest ih => rw [List.cons_append, joined, joined, ih]

theorem Cut.append {dialect : Dialect} {pieces others : List Piece} {last : List Char}
    (h : Cut dialect (joined others last) pieces) (h' : Cut dialect last others) :
    Cut dialect last (pieces ++ others) := by
  induction h with
  | nil => exact h'
  | cons hgap hstands hlexeme _ ih =>
      rw [← joined_append] at hstands hlexeme
      exact .cons hgap hstands hlexeme ih

/-- A piece as a word. -/
def Piece.word (piece : Piece) : Word :=
  ⟨piece.kind, piece.gap.contains '\n'⟩

/-- The tokens of pieces read as their words, up to the mark of the end. -/
theorem spells_tokensOf (before : List Char) (pieces : List Piece) (last : List Char) :
    ∃ ts done, tokensOf before pieces last = ts ++ [done] ∧ done.kind = .done ∧
      Spells ts (pieces.map Piece.word) := by
  induction pieces generalizing before with
  | nil => exact ⟨[], _, rfl, rfl, rfl⟩
  | cons piece rest ih =>
      obtain ⟨ts, done, hts, hdone, hspells⟩ := ih (before ++ piece.gap ++ piece.chars)
      refine ⟨⟨piece.kind, .behind (before ++ piece.gap), piece.gap.contains '\n'⟩ :: ts, done, ?_, hdone,
        congrArg (piece.word :: ·) hspells⟩
      rw [tokensOf, hts]
      rfl

/-! ## Single lexemes -/

/-- What stands in front of a lexeme. -/
def Spacing (gap : List Char) : Prop :=
  gap = [] ∨ gap = [' ']

theorem Spacing.trivia {gap : List Char} (h : Spacing gap) : Trivia gap := by
  rcases h with rfl | rfl
  · exact .nil
  · exact .blank (by decide) .nil

/-- A text is cut off as a token where a given text stands behind it, and no gap starts with it. -/
def Lexes (kind : TokenKind) (chars rest : List Char) : Prop :=
  ∃ c cs, chars = c :: cs ∧ Text.isBlank c = false ∧ c ≠ '/' ∧
    cutLexeme .modern c (cs ++ rest) = .ok ⟨kind, chars, rest⟩

theorem Lexes.cut {gap chars last : List Char} {kind : TokenKind} {rest : List Piece}
    (h : Lexes kind chars (joined rest last)) (hgap : Spacing gap) (hrest : Cut .modern last rest) :
    Cut .modern last (⟨gap, chars, kind⟩ :: rest) := by
  obtain ⟨c, cs, rfl, hblank, hslash, hlexeme⟩ := h
  have hstands : Stands (c :: cs ++ joined rest last) := by
    refine ⟨?_, fun hline => ?_, fun hblock => ?_⟩
    · rintro _ ⟨⟩
      exact hblank
    · exact hslash (List.cons_prefix_cons.1 hline).1.symm
    · exact hslash (List.cons_prefix_cons.1 hblock).1.symm
  exact .cons hgap.trivia hstands (cutLexeme_ok_iff.1 hlexeme).2 hrest

/-- A mark that no longer symbol starts with. -/
theorem lexes_mark {s : Symbol}
    (hs : s ∈ [Symbol.leftBracket, .rightBracket, .leftBrace, .rightBrace, .comma, .colon])
    (rest : List Char) : Lexes (.symbol s) s.spelling.toList rest := by
  fin_cases hs <;> exact ⟨_, _, rfl, by decide, by decide, rfl⟩

/-- A minus sign in front of anything but an equals sign. -/
theorem lexes_minus {rest : List Char} (hrest : ∀ c ∈ rest.head?, c ≠ '=') :
    Lexes (.symbol .minus) ['-'] rest := by
  refine ⟨_, _, rfl, by decide, by decide, ?_⟩
  have hsub : Symbol.subAssign.spelling.toList.isPrefixOf ('-' :: rest) = false := by
    cases rest with
    | nil => rfl
    | cons c rest =>
        have hc : ('=' == c) = false := beq_false_of_ne (hrest c rfl).symm
        simp [Symbol.spelling, List.isPrefixOf, hc]
  have hcut : cutSymbol? (Symbol.ofDialect .modern) ('-' :: rest) =
      some ⟨.symbol .minus, ['-'], rest⟩ := by
    have hsymbols : Symbol.ofDialect .modern = .addAssign :: .subAssign :: Symbol.shared := rfl
    rw [hsymbols, cutSymbol?, if_neg (by simp [Symbol.spelling]), cutSymbol?, if_neg (by simp [hsub])]
    rfl
  unfold cutLexeme
  rw [if_neg (by decide), if_neg (by decide), if_neg (by decide), List.nil_append, hcut]

/-! ## What stands behind a value -/

/-- What may stand behind a value. -/
inductive EndsValue : List Char → Prop
  | done : EndsValue []
  | space {cs} : EndsValue (' ' :: cs)
  | comma {cs} : EndsValue (',' :: cs)
  | bracket {cs} : EndsValue (']' :: cs)

theorem EndsValue.name {rest : List Char} (h : EndsValue rest) (capital : Bool) (seen : List Char) :
    cutName capital seen rest = (seen.reverse, rest) := by
  cases h <;> rfl

theorem EndsValue.number {rest : List Char} (h : EndsValue rest) :
    ∀ c ∈ rest.head?, c.isDigit = false ∧ c ≠ '.' := by
  cases h with
  | done => nofun
  | space | comma | bracket =>
      rintro _ ⟨⟩
      decide

theorem lexes_word {cs rest : List Char} (h : NameChars cs)
    (hrest : ∀ capital seen, cutName capital seen rest = (seen.reverse, rest)) :
    Lexes (wordKind .modern cs) cs rest := by
  obtain ⟨c, ds, rfl, hc, hcut⟩ := h.cut hrest
  refine ⟨c, ds, rfl, isBlank_of_isNameStart hc, fun hslash => ?_, ?_⟩
  · rw [hslash] at hc
    exact absurd hc (by decide)
  · unfold cutLexeme
    rw [if_pos hc, hcut []]
    rfl

theorem lexes_number {digits rest : List Char} {n : Nat} {k : Int} (h : Number.Literal digits n k)
    (hrest : EndsValue rest) : Lexes (.number (Number.ofDecimal false n k)) digits rest := by
  obtain ⟨c, cs, rfl, hc⟩ := h.first
  refine ⟨c, cs, rfl, isBlank_of_isDigit hc, ?_, ?_⟩
  · rintro rfl
    cases hc
  · unfold cutLexeme
    rw [if_neg (by simp [isNameStart_of_isDigit hc]), if_pos hc, ← List.cons_append,
      cutNumber_literal h hrest.number]

theorem quoted_self {cs : List Char} (h : ∀ c ∈ cs, c ≠ '"' ∧ c ≠ '\\') : Quoted cs cs := by
  induction cs with
  | nil => exact .nil
  | cons c cs ih =>
      obtain ⟨hc, hcs⟩ := List.forall_mem_cons.1 h
      exact .plain hc.1 hc.2 (ih hcs)

theorem lexes_text {text : String} (h : ∀ c ∈ text.toList, c ≠ '"' ∧ c ≠ '\\') (rest : List Char) :
    Lexes (.text text) ('"' :: (text.toList ++ ['"'])) rest := by
  refine ⟨'"', _, rfl, by decide, by decide, ?_⟩
  unfold cutLexeme
  rw [if_neg (by decide), if_neg (by decide), if_pos rfl, List.append_assoc, List.singleton_append,
    cutString_quoted (quoted_self h)]
  simp

/-! ## Texts of values -/

/-- Pieces make up a text, and are cut off it, in front of what may stand behind a value. -/
structure Shows (pieces : List Piece) (text : List Char) : Prop where
  text : ∀ last, joined pieces last = text ++ last
  cut : ∀ last, EndsValue last → Cut .modern last pieces

theorem Shows.lexeme {gap chars : List Char} {kind : TokenKind} (hgap : Spacing gap)
    (h : ∀ rest, EndsValue rest → Lexes kind chars rest) :
    Shows [⟨gap, chars, kind⟩] (gap ++ chars) where
  text last := by simp [joined]
  cut last hlast := (h last hlast).cut hgap .nil

end ScriptLab.Program
