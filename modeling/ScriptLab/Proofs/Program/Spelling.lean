import ScriptLab.Proofs.Number.Text
import ScriptLab.Proofs.Program.Printer

/-!
# Printed words are read back

A word that is followed by a blank is cut off the text as the token that it was printed for.
-/

namespace ScriptLab.Program

open Text (Pos)

variable {dialect : Dialect}

/-! ## Where a word ends -/

/-- What follows a word: nothing, or a blank. -/
inductive Apart : List Char → Prop
  | done : Apart []
  | space {cs} : Apart (' ' :: cs)
  | line {cs} : Apart ('\n' :: cs)

/-- A text is cut off as a token, and no gap starts with it. -/
structure ReadsBack (dialect : Dialect) (kind : TokenKind) (chars : List Char) : Prop where
  lexeme : ∀ rest, Apart rest → ∃ c cs, chars = c :: cs ∧ Text.isBlank c = false ∧
    (c = '/' → cs = []) ∧ cutLexeme dialect c (cs ++ rest) = .ok ⟨kind, chars, rest⟩

theorem cutGap_blank {c : Char} {seen cs : List Char} (hc : Text.isBlank c = false) (h : c ≠ '/') :
    cutGap .blank seen (c :: cs) = .ok (seen.reverse, c :: cs) := by
  unfold cutGap
  split <;> simp_all

theorem cutGap_word (seen : List Char) {c : Char} {cs rest : List Char} (hc : Text.isBlank c = false)
    (hslash : c = '/' → cs = []) (hrest : Apart rest) :
    cutGap .blank seen (c :: (cs ++ rest)) = .ok (seen.reverse, c :: (cs ++ rest)) := by
  by_cases h : c = '/'
  · obtain rfl := hslash h
    subst h
    -- A slash starts a gap only before another one or a star.
    cases hrest with
    | done => rfl
    | space => rfl
    | line => rfl
  · exact cutGap_blank hc h

/-! ## Names and keywords -/

theorem isNamePart_colon : isNamePart ':' = false := by
  decide

theorem cutName_parts {capital : Bool} {seen cs rest : List Char}
    (hs : ∀ d ∈ cs, isNamePart d = true) :
    cutName capital seen (cs ++ rest) = cutName capital (cs.reverse ++ seen) rest := by
  induction cs generalizing seen with
  | nil => rfl
  | cons d ds ih =>
      have hd := hs d List.mem_cons_self
      have hcolon : d ≠ ':' := fun h => by rw [h, isNamePart_colon] at hd; cases hd
      have hstep : cutName capital seen (d :: (ds ++ rest)) = cutName capital (d :: seen) (ds ++ rest) := by
        rw [cutName, if_pos hd]
        exact fun c cs h => absurd h hcolon
      rw [List.cons_append, hstep, ih fun e he => hs e (List.mem_cons_of_mem _ he)]
      simp

theorem cutName_apart {capital : Bool} {seen rest : List Char} (h : Apart rest) :
    cutName capital seen rest = (seen.reverse, rest) := by
  cases h <;> rfl

theorem isUpper_iff (c : Char) : c.isUpper = true ↔ 65 ≤ c.toNat ∧ c.toNat ≤ 90 := by
  simp only [Char.isUpper, decide_eq_true_eq]
  exact Iff.rfl

theorem isLower_iff (c : Char) : c.isLower = true ↔ 97 ≤ c.toNat ∧ c.toNat ≤ 122 := by
  simp only [Char.isLower, Bool.and_eq_true, decide_eq_true_eq]
  exact Iff.rfl

theorem isNameStart_of_isUpper {c : Char} (h : c.isUpper = true) : isNameStart c = true := by
  have hascii : c.toNat < 128 := by
    have := (isUpper_iff c).1 h
    omega
  unfold isNameStart Text.isLetter
  rw [if_pos hascii, Char.isAlpha, h]
  rfl

/-- The characters of a name are cut off as a whole where what follows does not go on with it. -/
theorem NameChars.cut {cs rest : List Char} (h : NameChars cs)
    (hrest : ∀ capital seen, cutName capital seen rest = (seen.reverse, rest)) :
    ∃ c ds, cs = c :: ds ∧ isNameStart c = true ∧
      ∀ seen, cutName c.isUpper (c :: seen) (ds ++ rest) = (seen.reverse ++ cs, rest) := by
  induction h with
  | @segment c cs hc hs =>
      refine ⟨c, cs, rfl, hc, fun seen => ?_⟩
      rw [cutName_parts hs, hrest]
      simp
  | @qualified c cs tail hc hs _ ih =>
      obtain ⟨d, ds, rfl, hd, hcut⟩ := ih
      refine ⟨c, _, rfl, isNameStart_of_isUpper hc, fun seen => ?_⟩
      rw [List.append_assoc, cutName_parts hs, hc, List.cons_append, List.cons_append, cutName,
        if_pos (by simp [hd]), hcut]
      simp

/-- The blanks beyond ASCII, as what lies between two code points. -/
def blanks : List (Nat × Nat) :=
  [(0x84, 0x86), (0x9f, 0xa1), (0x167f, 0x1681), (0x1fff, 0x200b), (0x2027, 0x202a), (0x202e, 0x2030),
    (0x205e, 0x2060), (0x2fff, 0x3001)]

/-- Ranges in which no blank lies. -/
def clearOfBlanks (ranges : Array (Nat × Nat)) : Bool :=
  ranges.toList.all fun range =>
    blanks.all fun blank => decide (range.2 ≤ blank.1) || decide (blank.2 ≤ range.1)

theorem mem_blanks_of_isBlank {c : Char} (h : Text.isBlank c = true) (hc : 128 ≤ c.toNat) :
    ∃ blank ∈ blanks, blank.1 < c.toNat ∧ c.toNat < blank.2 := by
  simp only [Text.isBlank, Bool.or_eq_true, Bool.and_eq_true, decide_eq_true_eq, beq_iff_eq] at h
  simp only [blanks, List.mem_cons, List.not_mem_nil, or_false, exists_eq_or_imp, exists_eq_left]
  omega

theorem inRanges_of_isBlank {ranges : Array (Nat × Nat)} (hranges : clearOfBlanks ranges = true) {c : Char}
    (h : Text.isBlank c = true) (hc : 128 ≤ c.toNat) : Text.inRanges ranges c.toNat = false := by
  obtain ⟨blank, hmem, hlow, hhigh⟩ := mem_blanks_of_isBlank h hc
  unfold Text.inRanges
  rw [← Array.any_toList, List.any_eq_false]
  intro range hrange
  have hall := List.all_eq_true.1 (List.all_eq_true.1 hranges range hrange) blank hmem
  simp only [Bool.and_eq_true, Bool.or_eq_true, decide_eq_true_eq] at hall ⊢
  omega

theorem isBlank_of_isLetter {c : Char} (h : Text.isLetter c = true) : Text.isBlank c = false := by
  cases hblank : Text.isBlank c with
  | false => rfl
  | true =>
      unfold Text.isLetter at h
      split at h
      · have hn : 65 ≤ c.toNat ∧ c.toNat ≤ 122 := by
          rw [Char.isAlpha, Bool.or_eq_true, isUpper_iff, isLower_iff] at h
          omega
        simp only [Text.isBlank, Bool.or_eq_true, Bool.and_eq_true, decide_eq_true_eq,
          beq_iff_eq] at hblank
        omega
      · next hc =>
          have hletters : clearOfBlanks Text.alphabeticRanges = true := by decide +kernel
          rw [inRanges_of_isBlank hletters hblank (Nat.le_of_not_lt hc)] at h
          cases h

theorem isBlank_of_isNameStart {c : Char} (h : isNameStart c = true) : Text.isBlank c = false := by
  rcases Bool.or_eq_true_iff.1 h with h | h
  · exact isBlank_of_isLetter h
  · rw [beq_iff_eq.1 h]
    decide

theorem ReadsBack.word {cs : List Char} (h : NameChars cs) :
    ReadsBack dialect (wordKind dialect cs) cs := by
  refine ⟨fun rest hrest => ?_⟩
  obtain ⟨c, ds, rfl, hc, hcut⟩ := h.cut fun _ _ => cutName_apart hrest
  refine ⟨c, ds, rfl, isBlank_of_isNameStart hc, fun hslash => ?_, ?_⟩
  · rw [hslash] at hc
    exact absurd hc (by decide)
  · unfold cutLexeme
    rw [if_pos hc, hcut []]
    rfl

theorem ReadsBack.name {word : String} (h : dialect.Names word) :
    ReadsBack dialect (.name word) word.toList := by
  have hkind : wordKind dialect word.toList = .name word := by
    unfold wordKind
    rw [String.ofList_toList, h.free]
  rw [← hkind]
  exact .word h.chars

theorem NameChars.of_all {c : Char} {cs : List Char} (hc : isNameStart c = true)
    (hs : cs.all isNamePart = true) : NameChars (c :: cs) :=
  .segment hc (List.all_eq_true.1 hs)

theorem ReadsBack.keyword {word : Keyword} (h : (word.spelling? dialect).isSome = true) :
    ReadsBack dialect (.keyword word) (TokenKind.spelling dialect (.keyword word)) := by
  have hkind : wordKind dialect (TokenKind.spelling dialect (.keyword word)) = .keyword word := by
    cases dialect <;> cases word <;> first | rfl | cases h
  have hchars : NameChars (TokenKind.spelling dialect (.keyword word)) := by
    cases dialect <;> cases word <;> first | exact .of_all rfl rfl | cases h
  have hword : ReadsBack dialect _ _ := .word hchars
  rwa [hkind] at hword

/-! ## Strings -/

theorem cutString_escaped {value seen rest : List Char} (cs : List Char) :
    cutString value seen (cs.flatMap escape ++ '"' :: rest) =
      some (value.reverse ++ cs, seen.reverse ++ cs.flatMap escape ++ ['"'], rest) := by
  induction cs generalizing value seen with
  | nil => simp [cutString]
  | cons c cs ih =>
      by_cases hquote : c = '"'
      · subst hquote
        simp [escape, cutString, unescape, ih]
      · by_cases hslash : c = '\\'
        · subst hslash
          simp [escape, cutString, unescape, ih]
        · have hescape : escape c = [c] := by
            unfold escape
            split
            · exact absurd rfl hquote
            · exact absurd rfl hslash
            · rfl
          rw [List.flatMap_cons, hescape, List.cons_append, List.nil_append, List.cons_append, cutString, ih]
          · simp
          · exact fun h => absurd h hquote
          · exact fun _ _ h => absurd h hslash

theorem ReadsBack.text (value : String) :
    ReadsBack dialect (.text value) (TokenKind.spelling dialect (.text value)) := by
  refine ⟨fun rest hrest => ⟨'"', _, rfl, by decide, fun h => (nomatch h), ?_⟩⟩
  unfold cutLexeme
  rw [if_neg (by decide), if_neg (by decide), if_pos rfl, List.append_assoc, List.singleton_append,
    cutString_escaped]
  simp [TokenKind.spelling]

/-! ## Numbers -/

theorem Apart.number {rest : List Char} (h : Apart rest) :
    ∀ c ∈ rest.head?, c.isDigit = false ∧ c ≠ '.' := by
  cases h with
  | done => nofun
  | space | line =>
      rintro _ ⟨⟩
      decide

/-- The characters of a number literal are cut off as a whole where neither a digit nor a point
follows. -/
theorem cutNumber_literal {digits rest : List Char} {n : Nat} {k : Int}
    (h : Number.Literal digits n k) (hrest : ∀ c ∈ rest.head?, c.isDigit = false ∧ c ≠ '.') :
    cutNumber (digits ++ rest) = ⟨.number (Number.ofDecimal false n k), digits, rest⟩ := by
  obtain ⟨htake, hdrop⟩ := Number.takeWhile_digits_none fun c hc => (hrest c hc).1
  cases h with
  | whole hne hd =>
    have hvalue : Number.ofPlaces digits [] = Number.ofDecimal false (Number.ofDigits digits) 0 := by
      rw [Number.ofPlaces, List.append_nil]
      rfl
    unfold cutNumber
    rw [List.takeWhile_append_of_pos hd, List.dropWhile_append_of_pos hd, htake, hdrop,
      List.append_nil, ← hvalue]
    split
    next => exact absurd rfl (hrest '.' rfl).2
    next => rfl
  | @point whole places hne hd hne' hd' =>
    have hplaces : places.isEmpty = false := by simp [hne']
    unfold cutNumber
    rw [List.append_assoc, List.takeWhile_append_of_pos hd, List.dropWhile_append_of_pos hd,
      List.cons_append]
    simp only [List.takeWhile_cons_of_neg (show ¬ ('.').isDigit = true by decide),
      List.dropWhile_cons_of_neg (show ¬ ('.').isDigit = true by decide),
      List.takeWhile_append_of_pos hd', List.dropWhile_append_of_pos hd', htake, hdrop, List.append_nil,
      hplaces]
    rfl

theorem isNameStart_of_isDigit {c : Char} (h : c.isDigit = true) : isNameStart c = false := by
  have hn : 48 ≤ c.toNat ∧ c.toNat ≤ 57 := Char.isDigit_iff_toNat.1 h
  have halpha : c.isAlpha = false := by
    rw [Char.isAlpha, Bool.or_eq_false_iff, ← Bool.not_eq_true, ← Bool.not_eq_true, isUpper_iff,
      isLower_iff]
    omega
  have hunderscore : c ≠ '_' := by
    rintro rfl
    exact absurd h (by decide)
  rw [isNameStart, Text.isLetter, if_pos (by omega), halpha, Bool.false_or, beq_eq_false_iff_ne]
  exact hunderscore

theorem isBlank_of_isDigit {c : Char} (h : c.isDigit = true) : Text.isBlank c = false := by
  have hn : 48 ≤ c.toNat ∧ c.toNat ≤ 57 := Char.isDigit_iff_toNat.1 h
  rw [← Bool.not_eq_true]
  simp only [Text.isBlank, Bool.or_eq_true, Bool.and_eq_true, decide_eq_true_eq, beq_iff_eq]
  omega

theorem isBlank_of_isNumeral {c : Char} (h : Text.isNumeral c = true) : Text.isBlank c = false := by
  cases hblank : Text.isBlank c with
  | false => rfl
  | true =>
      unfold Text.isNumeral at h
      split at h
      · rw [isBlank_of_isDigit h] at hblank
        cases hblank
      · next hc =>
          have hnumerals : clearOfBlanks Text.numeralRanges = true := by decide +kernel
          rw [inRanges_of_isBlank hnumerals hblank (Nat.le_of_not_lt hc)] at h
          cases h

theorem ReadsBack.number {value : Float} (h : IsLiteral value) :
    ReadsBack dialect (.number value) (TokenKind.spelling dialect (.number value)) := by
  refine ⟨fun rest hrest => ?_⟩
  obtain ⟨mantissa, exponent, hform⟩ := h
  obtain ⟨digits, n, k, htext, hlit, hvalue⟩ := Number.text_literal hform
  obtain ⟨c, cs, hchars, hdigit⟩ := hlit.first
  have hspelling : TokenKind.spelling dialect (.number value) = c :: cs := htext.trans hchars
  have hcut := cutNumber_literal hlit hrest.number
  rw [hchars, List.cons_append, hvalue false, ← Number.eq_double hform] at hcut
  refine ⟨c, cs, hspelling, isBlank_of_isDigit hdigit, fun hslash => ?_, ?_⟩
  · rw [hslash] at hdigit
    exact absurd hdigit (by decide)
  · unfold cutLexeme
    rw [if_neg (by simp [isNameStart_of_isDigit hdigit]), if_pos hdigit, hcut, hspelling]

/-! ## Symbols -/

theorem cutSymbol?_spelling {s : Symbol} {rest : List Char} (hs : s ∈ Symbol.ofDialect dialect)
    (hrest : Apart rest) :
    cutSymbol? (Symbol.ofDialect dialect) (s.spelling.toList ++ rest) =
      some ⟨.symbol s, s.spelling.toList, rest⟩ := by
  cases dialect <;> cases s <;> first
  | (cases hrest <;> rfl)
  | exact absurd hs (by decide)

/-- What a symbol starts with starts no other token and no gap. -/
theorem Symbol.first (s : Symbol) : ∃ c cs, s.spelling.toList = c :: cs ∧ Text.isBlank c = false ∧
    (c = '/' → cs = []) ∧ isNameStart c = false ∧ c.isDigit = false ∧ c ≠ '"' := by
  cases s <;> exact ⟨_, _, rfl, by decide, by decide, by decide, by decide, by decide⟩

theorem ReadsBack.symbol {s : Symbol} (hs : s ∈ Symbol.ofDialect dialect) :
    ReadsBack dialect (.symbol s) (TokenKind.spelling dialect (.symbol s)) := by
  refine ⟨fun rest hrest => ?_⟩
  have hcut := cutSymbol?_spelling hs hrest
  obtain ⟨c, cs, hchars, hblank, hslash, hname, hdigit, hquote⟩ := s.first
  refine ⟨c, cs, hchars, hblank, hslash, ?_⟩
  rw [hchars, List.cons_append] at hcut
  unfold cutLexeme
  rw [if_neg (by simp [hname]), if_neg (by simp [hdigit]), if_neg hquote, hcut, TokenKind.spelling,
    hchars]

end ScriptLab.Program
