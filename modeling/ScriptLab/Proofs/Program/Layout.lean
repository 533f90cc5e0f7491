import ScriptLab.Proofs.Program.Cutting
import ScriptLab.Proofs.Program.Matching

/-!
# Programs laid out anew

A gap can be replaced by any other one that starts with white space, as long as a line break is neither
put in nor taken away. The text is then cut into the same lexemes: no token but a string holds white space,
so that none grows over the start of a new gap, and a string ends at its quote whatever follows it.
-/

namespace ScriptLab.Program

variable {dialect : Dialect}

/-! ## Other gaps -/

/-- What a gap may be replaced by: itself, or trivia that start with white space and have a line feed if
the gap has one. -/
inductive NewGap (gap : List Char) : List Char → Prop
  | kept : NewGap gap gap
  | fresh {b cs} (hb : Text.isBlank b = true) (h : Trivia (b :: cs))
      (hbreak : '\n' ∈ b :: cs ↔ '\n' ∈ gap) : NewGap gap (b :: cs)

/-- The pieces of a text that is laid out anew: other gaps in front of the same lexemes, and another one at
the end. -/
inductive Relays : List Piece → List Char → List Piece → List Char → Prop
  | nil {last last'} (h : NewGap last last') : Relays [] last [] last'
  | cons {piece gap pieces last pieces' last'} (hgap : NewGap piece.gap gap)
      (h : Relays pieces last pieces' last') :
      Relays (piece :: pieces) last ({ piece with gap := gap } :: pieces') last'

namespace NewGap

variable {gap gap' : List Char}

theorem trivia (h : NewGap gap gap') (hgap : Trivia gap) : Trivia gap' := by
  cases h with
  | kept => exact hgap
  | fresh _ h => exact h

theorem trailing (h : NewGap gap gap') (hgap : Trailing gap) : Trailing gap' := by
  cases h with
  | kept => exact hgap
  | fresh _ h => exact .closed h

theorem mem_lineFeed (h : NewGap gap gap') : '\n' ∈ gap' ↔ '\n' ∈ gap := by
  cases h with
  | kept => exact Iff.rfl
  | fresh _ _ hbreak => exact hbreak

theorem contains_lineFeed (h : NewGap gap gap') : gap.contains '\n' = gap'.contains '\n' := by
  rw [Bool.eq_iff_iff, List.contains_iff_mem, List.contains_iff_mem]
  exact h.mem_lineFeed.symm

end NewGap

/-! ## Where two texts part -/

/-- The second text is the first one, or goes on with a blank where they part. -/
def Strays (cs cs' : List Char) : Prop :=
  cs' = cs ∨ ∃ common b rest', common <+: cs ∧ cs' = common ++ b :: rest' ∧ Text.isBlank b = true

namespace Strays

variable {cs cs' : List Char}

theorem append (h : Strays cs cs') (before : List Char) : Strays (before ++ cs) (before ++ cs') := by
  rcases h with rfl | ⟨common, b, rest', hcommon, rfl, hb⟩
  · exact .inl rfl
  · refine .inr ⟨before ++ common, b, rest', (List.prefix_append_right_inj before).2 hcommon, ?_, hb⟩
    rw [List.append_assoc]

/-- What the second text starts with up to its first blank, the first one starts with as well. -/
theorem startsWith (h : Strays cs cs') {more : List Char} (hmore : more <+: cs')
    (hblank : ∀ c ∈ more, Text.isBlank c = false) : more <+: cs := by
  rcases h with rfl | ⟨common, b, rest', hcommon, rfl, hb⟩
  · exact hmore
  · rcases List.prefix_or_prefix_of_prefix hmore (List.prefix_append common (b :: rest')) with h | h
    · exact h.trans hcommon
    · obtain ⟨behind, rfl⟩ := h
      rw [List.prefix_append_right_inj] at hmore
      cases behind with
      | nil => simpa using hcommon
      | cons c behind =>
          obtain ⟨rfl, -⟩ := List.cons_prefix_cons.1 hmore
          rw [hblank c (by simp)] at hb
          cases hb

end Strays

theorem Relays.strays {pieces pieces' : List Piece} {last last' : List Char}
    (h : Relays pieces last pieces' last') : Strays (joined pieces last) (joined pieces' last') := by
  have freshly {gap gap' rest rest' : List Char} (h : NewGap gap gap') (hrest : Strays rest rest') :
      Strays (gap ++ rest) (gap' ++ rest') := by
    cases h with
    | kept => exact hrest.append gap
    | @fresh b cs hb => exact .inr ⟨[], b, cs ++ rest', List.nil_prefix, rfl, hb⟩
  induction h with
  | nil hlast => simpa [joined] using freshly hlast (.inl (rfl : ([] : List Char) = []))
  | cons hgap _ ih => exact freshly hgap (ih.append _)

/-! ## Blanks in tokens -/

theorem isBlank_of_isNamePart {c : Char} (h : isNamePart c = true) : Text.isBlank c = false := by
  simp only [isNamePart, Bool.or_eq_true, beq_iff_eq] at h
  rcases h with (h | h) | rfl
  · exact isBlank_of_isLetter h
  · exact isBlank_of_isNumeral h
  · decide

theorem NameChars.isBlank {cs : List Char} (h : NameChars cs) : ∀ c ∈ cs, Text.isBlank c = false := by
  induction h with
  | segment hc hs =>
      exact List.forall_mem_cons.2 ⟨isBlank_of_isNameStart hc, fun d hd => isBlank_of_isNamePart (hs d hd)⟩
  | qualified hc hs _ ih =>
      refine List.forall_mem_cons.2 ⟨isBlank_of_isNameStart (isNameStart_of_isUpper hc), ?_⟩
      refine List.forall_mem_append.2 ⟨fun d hd => isBlank_of_isNamePart (hs d hd), ?_⟩
      exact List.forall_mem_cons.2 ⟨by decide, ih⟩

/-- A token that starts with a quote is a string. -/
theorem Spelled.quoted {cs : List Char} {kind : TokenKind} (h : Spelled dialect ('"' :: cs) kind) :
    ∃ inside value, Quoted inside value ∧ cs = inside ++ ['"'] := by
  have hdigits {digits rest : List Char} (hne : digits ≠ []) (hd : ∀ c ∈ digits, c.isDigit = true)
      (h : '"' :: cs = digits ++ rest) : False := by
    obtain ⟨d, ds, rfl⟩ := List.exists_cons_of_ne_nil hne
    obtain ⟨rfl, -⟩ := List.cons.inj h
    exact absurd (hd _ List.mem_cons_self) (by decide)
  generalize hchars : '"' :: cs = chars at h
  cases h with
  | word h =>
      obtain ⟨d, ds, rfl, hd, -⟩ := h.cut fun _ _ => cutName_apart .done
      obtain ⟨rfl, -⟩ := List.cons.inj hchars
      exact absurd hd (by decide)
  | whole hne hd => exact (hdigits hne hd (by rw [hchars, List.append_nil])).elim
  | point hne hd => exact (hdigits hne hd hchars).elim
  | text h => exact ⟨_, _, h, (List.cons.inj hchars).2⟩
  | @symbol s =>
      obtain ⟨c, ds, hspelling, -, -, -, -, hquote⟩ := s.first
      exact absurd (List.cons.inj (hchars.trans hspelling)).1.symm hquote

/-- No blank is in a token other than a string. -/
theorem Spelled.isBlank {chars : List Char} {kind : TokenKind} (h : Spelled dialect chars kind) :
    (∀ c ∈ chars, Text.isBlank c = false) ∨ ∃ cs, chars = '"' :: cs := by
  cases h with
  | word h => exact .inl h.isBlank
  | whole _ hd => exact .inl fun c hc => isBlank_of_isDigit (hd c hc)
  | point _ hd _ hd' =>
      refine .inl (List.forall_mem_append.2 ⟨fun c hc => isBlank_of_isDigit (hd c hc), ?_⟩)
      exact List.forall_mem_cons.2 ⟨by decide, fun c hc => isBlank_of_isDigit (hd' c hc)⟩
  | text => exact .inr ⟨_, rfl⟩
  | @symbol s =>
      have hall : (s.spelling.toList.all fun c => !Text.isBlank c) = true := by cases s <;> rfl
      exact .inl (by simpa using hall)

/-- Two strings that a text starts with are the same. -/
theorem Quoted.unique {inside inside' value value' rest rest' : List Char} (h : Quoted inside value)
    (h' : Quoted inside' value') (heq : inside ++ '"' :: rest = inside' ++ '"' :: rest') :
    inside = inside' := by
  have hcut := cutString_quoted h [] [] rest
  rw [heq, cutString_quoted h' [] [] rest'] at hcut
  simp only [Option.some.injEq, Prod.mk.injEq] at hcut
  simpa using hcut.2.1.symm

/-! ## The same lexemes -/

theorem Longest.strays {chars rest rest' : List Char} {kind : TokenKind}
    (h : Longest dialect chars kind rest) (hrest : Strays rest rest') :
    Longest dialect chars kind rest' where
  spelled := h.spelled
  longest {chars' kind'} hspelled hprefix := by
    rcases hspelled.isBlank with hblank | ⟨cs', rfl⟩
    -- A token without blanks does not reach behind the place where the texts part.
    · exact h.longest hspelled ((hrest.append chars).startsWith hprefix hblank)
    -- A string may hold blanks, but then the old token is a string too, and both end at the same quote.
    · obtain ⟨c, cs, rfl⟩ := List.exists_cons_of_ne_nil h.spelled.ne_nil
      obtain ⟨rfl, hprefix⟩ := List.cons_prefix_cons.1 hprefix
      obtain ⟨inside, value, hquoted, rfl⟩ := h.spelled.quoted
      obtain ⟨inside', value', hquoted', rfl⟩ := hspelled.quoted
      obtain ⟨behind, hbehind⟩ := hprefix
      have heq : inside ++ '"' :: rest' = inside' ++ '"' :: behind := by simpa using hbehind.symm
      rw [hquoted.unique hquoted' heq]

theorem Stands.strays {cs cs' : List Char} (h : Stands cs) (hcs : Strays cs cs')
    (hfirst : ∀ c ∈ cs'.head?, Text.isBlank c = false) : Stands cs' where
  blank := hfirst
  line hline := h.line (hcs.startsWith hline (by simp [Text.isBlank]))
  block hblock := h.block (hcs.startsWith hblock (by simp [Text.isBlank]))

/-- A text that is laid out anew is cut in the same way. -/
theorem Cut.relays {pieces pieces' : List Piece} {last last' : List Char} (h : Cut dialect last pieces)
    (hrelays : Relays pieces last pieces' last') : Cut dialect last' pieces' := by
  induction hrelays with
  | nil => exact .nil
  | @cons piece gap pieces last pieces' last' hgap hrelays ih =>
      cases h with
      | cons htrivia hstands hlexeme h =>
          refine .cons (hgap.trivia htrivia) ?_ (hlexeme.strays hrelays.strays) (ih h)
          refine hstands.strays (hrelays.strays.append _) ?_
          obtain ⟨c, cs, hchars⟩ := List.exists_cons_of_ne_nil hlexeme.spelled.ne_nil
          have hblank := hstands.blank
          rw [hchars] at hblank ⊢
          exact hblank

theorem Relays.trailing {pieces pieces' : List Piece} {last last' : List Char}
    (h : Relays pieces last pieces' last') (hlast : Trailing last) : Trailing last' := by
  induction h with
  | nil h => exact h.trailing hlast
  | cons _ _ ih => exact ih hlast

theorem Relays.tokensOf {pieces pieces' : List Piece} {last last' : List Char}
    (h : Relays pieces last pieces' last') (before before' : List Char) :
    List.Forall₂ Token.Matches (tokensOf before pieces last) (tokensOf before' pieces' last') := by
  induction h generalizing before before' with
  | nil h => exact .cons ⟨rfl, h.contains_lineFeed⟩ .nil
  | cons hgap _ ih => exact .cons ⟨rfl, hgap.contains_lineFeed⟩ (ih _ _)

/-! ## Whole texts -/

/-- The layout of a text matters only by its line breaks. In whatever way a text with tokens is cut into
gaps and lexemes, and there is one, other gaps in it give a text with the same tokens, in other places, and
both texts are parsed the same: as programs that are equal up to positions, or with the same fault. -/
theorem layout_irrelevant {dialect : Dialect} {code : String} {ts : List Token}
    (hts : tokens dialect code = .ok ts) :
    (∃ pieces last, code.toList = joined pieces last ∧ Cut dialect last pieces ∧ Trailing last) ∧
    ∀ pieces last, code.toList = joined pieces last → Cut dialect last pieces → Trailing last →
      ∀ pieces' last', Relays pieces last pieces' last' →
        ∃ ts', tokens dialect (String.ofList (joined pieces' last')) = .ok ts' ∧
          List.Forall₂ Token.Matches ts ts' ∧
          SameParse (parse dialect code) (parse dialect (String.ofList (joined pieces' last'))) := by
  constructor
  · obtain ⟨pieces, last, hcode, hcut, hlast, -⟩ := cut_of_tokens hts
    exact ⟨pieces, last, hcode, hcut, hlast⟩
  · intro pieces last hcode hcut hlast pieces' last' hrelays
    have hts' : tokens dialect (String.ofList (joined pieces' last')) = .ok (tokensOf [] pieces' last') :=
      tokens_joined String.toList_ofList (hcut.relays hrelays) (hrelays.trailing hlast)
    have hmatches := hrelays.tokensOf [] []
    have hold := tokens_joined hcode hcut hlast
    obtain rfl : tokensOf [] pieces last = ts := Except.ok.inj (hold.symm.trans hts)
    exact ⟨_, hts', hmatches, parse_matches hts hts' hmatches⟩

/-- A comment with a quote in it before an operator, and a blank at the end. -/
theorem layout_irrelevant_commented :
    let ts : List Token := [⟨.name "a", ⟨1, 1⟩, false⟩, ⟨.symbol .minus, ⟨1, 2⟩, false⟩,
      ⟨.name "b", ⟨1, 3⟩, false⟩, ⟨.done, ⟨1, 4⟩, false⟩]
    tokens .modern "a-b" = .ok ts ∧ ∃ ts', tokens .modern "a /*\"*/-b " = .ok ts' ∧
      List.Forall₂ Token.Matches ts ts' ∧
        SameParse (parse .modern "a-b") (parse .modern "a /*\"*/-b ") := by
  intro ts
  have hts : tokens .modern "a-b" = .ok ts := by decide +kernel
  have hword {c : Char} {rest : List Char} (hc : Text.isBlank c = false ∧ c ≠ '/') : Stands (c :: rest) := by
    refine ⟨?_, fun h => hc.2 (List.cons_prefix_cons.1 h).1.symm,
      fun h => hc.2 (List.cons_prefix_cons.1 h).1.symm⟩
    rintro _ ⟨⟩
    exact hc.1
  have hlexeme {c : Char} {cs rest : List Char} {kind : TokenKind}
      (h : cutLexeme .modern c (cs ++ rest) = .ok ⟨kind, c :: cs, rest⟩) :
      Longest .modern (c :: cs) kind rest :=
    (cutLexeme_ok_iff.1 h).2
  let minus : Piece := ⟨[], ['-'], .symbol .minus⟩
  let a : Piece := ⟨[], ['a'], .name "a"⟩
  let b : Piece := ⟨[], ['b'], .name "b"⟩
  have hcut : Cut .modern [] [a, minus, b] :=
    .cons .nil (hword (by decide)) (hlexeme (by rfl)) <|
      .cons .nil (hword (by decide)) (hlexeme (by rfl)) <|
        .cons .nil (hword (by decide)) (hlexeme (by rfl)) .nil
  have hcomment : NewGap [] [' ', '/', '*', '"', '*', '/'] :=
    .fresh rfl (.blank rfl (.block (by decide : ¬['*', '/'] <:+: ['"']) .nil)) (by decide)
  have hblank : NewGap [] [' '] := .fresh rfl (.blank rfl .nil) (by decide)
  have hrelays : Relays [a, minus, b] []
      [a, { minus with gap := [' ', '/', '*', '"', '*', '/'] }, b] [' '] :=
    .cons .kept <| .cons hcomment <| .cons .kept <| .nil hblank
  exact ⟨hts, (layout_irrelevant hts).2 _ _ rfl hcut (.closed .nil) _ _ hrelays⟩

end ScriptLab.Program
