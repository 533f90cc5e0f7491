import ScriptLab.Proofs.Program.Gaps
import ScriptLab.Proofs.Program.Words

/-!
# The lexemes of a dialect

Which texts are tokens is said here apart from how they are cut off: names and keywords, numbers, strings
and symbols. What the lexer cuts off is the longest token that a text starts with, and it refuses just the
texts that start with none.
-/

namespace ScriptLab.Program

variable {dialect : Dialect}

/-! ## Texts that are tokens -/

/-- What stands between the quotes of a string, and the characters that it denotes. -/
inductive Quoted : List Char → List Char → Prop
  | nil : Quoted [] []
  | plain {c inside value} (hquote : c ≠ '"') (hslash : c ≠ '\\') (h : Quoted inside value) :
      Quoted (c :: inside) (c :: value)
  | escaped {c inside value} (h : Quoted inside value) :
      Quoted ('\\' :: c :: inside) (unescape c :: value)

/-- The texts that are tokens of a dialect, with their kinds. -/
inductive Spelled (dialect : Dialect) : List Char → TokenKind → Prop
  | word {cs} (h : NameChars cs) : Spelled dialect cs (wordKind dialect cs)
  | whole {digits} (hne : digits ≠ []) (hd : ∀ c ∈ digits, c.isDigit = true) :
      Spelled dialect digits (.number (Number.ofPlaces digits []))
  | point {digits places} (hne : digits ≠ []) (hd : ∀ c ∈ digits, c.isDigit = true)
      (hne' : places ≠ []) (hd' : ∀ c ∈ places, c.isDigit = true) :
      Spelled dialect (digits ++ '.' :: places) (.number (Number.ofPlaces digits places))
  | text {inside value} (h : Quoted inside value) :
      Spelled dialect ('"' :: (inside ++ ['"'])) (.text (String.ofList value))
  | symbol {s} (hs : s ∈ Symbol.ofDialect dialect) : Spelled dialect s.spelling.toList (.symbol s)

/-- A token that a text starts with, none that it starts with being longer. -/
structure Longest (dialect : Dialect) (chars : List Char) (kind : TokenKind) (rest : List Char) :
    Prop where
  spelled : Spelled dialect chars kind
  longest : ∀ {chars' kind'}, Spelled dialect chars' kind' → chars' <+: chars ++ rest →
    chars'.length ≤ chars.length

/-! ## Names -/

/-- The first segments of a name, up to a colon. -/
def Qualifies (cs : List Char) : Prop :=
  ∀ {tail}, NameChars tail → NameChars (cs ++ tail)

/-- What is cut off behind the start of a name makes a name. -/
theorem nameChars_cutName {capital : Bool} {seen cs : List Char}
    (h : ∃ first c segment, seen.reverse = first ++ c :: segment ∧ Qualifies first ∧
      isNameStart c = true ∧ (∀ d ∈ segment, isNamePart d = true) ∧ capital = c.isUpper) :
    NameChars (cutName capital seen cs).1 := by
  fun_induction cutName capital seen cs with
  | case1 capital seen c cs hc ih =>
      obtain ⟨first, d, segment, hseen, hfirst, hd, hsegment, rfl⟩ := h
      obtain ⟨hupper, hstart⟩ := Bool.and_eq_true_iff.1 hc
      refine ih ⟨first ++ (d :: (segment ++ [':'])), c, [], ?_, fun htail => ?_, hstart,
        List.forall_mem_nil _, rfl⟩
      · simp [hseen]
      · simpa using hfirst (.qualified hupper hsegment htail)
  | case2 capital seen c cs hc =>
      obtain ⟨first, d, segment, hseen, hfirst, hd, hsegment, rfl⟩ := h
      rw [hseen]
      exact hfirst (.segment hd hsegment)
  | case3 capital seen c cs hcolon hc ih =>
      obtain ⟨first, d, segment, hseen, hfirst, hd, hsegment, rfl⟩ := h
      refine ih ⟨first, d, segment ++ [c], by simp [hseen], hfirst, hd, fun e he => ?_, rfl⟩
      rcases List.mem_append.1 he with he | he
      · exact hsegment e he
      · rw [List.mem_singleton.1 he]
        exact hc
  | case4 capital seen c cs hcolon hc =>
      obtain ⟨first, d, segment, hseen, hfirst, hd, hsegment, rfl⟩ := h
      rw [hseen]
      exact hfirst (.segment hd hsegment)
  | case5 capital seen =>
      obtain ⟨first, d, segment, hseen, hfirst, hd, hsegment, rfl⟩ := h
      rw [hseen]
      exact hfirst (.segment hd hsegment)

theorem prefix_cutName (capital : Bool) (seen cs : List Char) :
    seen.reverse <+: (cutName capital seen cs).1 := by
  fun_induction cutName capital seen cs with
  | case1 capital seen c cs hc ih => exact List.IsPrefix.trans ⟨[':', c], by simp⟩ ih
  | case3 capital seen c cs hcolon hc ih => exact List.IsPrefix.trans ⟨[c], by simp⟩ ih
  | _ => exact List.prefix_rfl

/-- What is cut off a text that starts with a name is no shorter than the name. -/
theorem NameChars.prefix_cut {cs : List Char} (h : NameChars cs) (rest : List Char) :
    ∃ c ds, cs = c :: ds ∧ isNameStart c = true ∧
      ∀ seen, seen.reverse ++ cs <+: (cutName c.isUpper (c :: seen) (ds ++ rest)).1 := by
  induction h with
  | @segment c cs hc hs =>
      refine ⟨c, cs, rfl, hc, fun seen => ?_⟩
      rw [cutName_parts hs]
      simpa using prefix_cutName c.isUpper (cs.reverse ++ c :: seen) rest
  | @qualified c cs tail hc hs _ ih =>
      obtain ⟨d, ds, rfl, hd, hcut⟩ := ih
      refine ⟨c, _, rfl, isNameStart_of_isUpper hc, fun seen => ?_⟩
      rw [List.append_assoc, cutName_parts hs, hc, List.cons_append, List.cons_append, cutName,
        if_pos (by simp [hd])]
      simpa using hcut (':' :: (cs.reverse ++ c :: seen))

/-! ## Strings -/

theorem cutString_quoted {inside value : List Char} (h : Quoted inside value) (before seen rest : List Char) :
    cutString before seen (inside ++ '"' :: rest) =
      some (before.reverse ++ value, seen.reverse ++ inside ++ ['"'], rest) := by
  induction h generalizing before seen with
  | nil => simp [cutString]
  | @plain c inside value hquote hslash _ ih =>
      rw [List.cons_append, cutString, ih]
      · simp
      · exact fun h => absurd h hquote
      · exact fun _ _ h => absurd h hslash
  | escaped _ ih =>
      rw [List.cons_append, List.cons_append, cutString, ih]
      simp

theorem quoted_of_cutString {before seen cs v chars rest : List Char}
    (h : cutString before seen cs = some (v, chars, rest)) :
    ∃ inside value, Quoted inside value ∧ cs = inside ++ '"' :: rest ∧
      v = before.reverse ++ value ∧ chars = seen.reverse ++ inside ++ ['"'] := by
  fun_induction cutString before seen cs with
  | case1 before seen cs =>
      cases h
      exact ⟨[], [], .nil, rfl, by simp, by simp⟩
  | case2 before seen c cs ih =>
      obtain ⟨inside, value, hquoted, rfl, rfl, rfl⟩ := ih h
      exact ⟨_, _, .escaped hquoted, rfl, by simp, by simp⟩
  | case3 before seen c cs hquote hslash ih =>
      obtain ⟨inside, value, hquoted, rfl, rfl, rfl⟩ := ih h
      refine ⟨_, _, .plain hquote (fun hc => ?_) hquoted, rfl, by simp, by simp⟩
      -- A backslash that is no escape is the last character, and no quote stands behind it.
      cases inside with
      | nil => exact hslash _ _ hc rfl
      | cons d inside => exact hslash _ _ hc rfl
  | case4 => cases h

/-! ## Numbers -/

theorem cutNumber_whole {digits rest : List Char} (hd : ∀ c ∈ digits, c.isDigit = true) :
    digits <+: (cutNumber (digits ++ rest)).chars := by
  have hwhole : digits <+: (digits ++ rest).takeWhile Char.isDigit := by
    rw [List.takeWhile_append_of_pos hd]
    exact List.prefix_append _ _
  unfold cutNumber
  dsimp only
  split
  · split
    · exact hwhole
    · exact hwhole.trans (List.prefix_append _ _)
  · exact hwhole

theorem cutNumber_point {digits places rest : List Char} (hd : ∀ c ∈ digits, c.isDigit = true)
    (hne' : places ≠ []) (hd' : ∀ c ∈ places, c.isDigit = true) :
    digits ++ '.' :: places <+: (cutNumber (digits ++ '.' :: places ++ rest)).chars := by
  have hplaces : ((places ++ rest).takeWhile Char.isDigit).isEmpty = false := by
    rw [List.takeWhile_append_of_pos hd']
    simp [hne']
  unfold cutNumber
  rw [List.append_assoc, List.takeWhile_append_of_pos hd, List.dropWhile_append_of_pos hd,
    List.cons_append]
  simp only [List.takeWhile_cons_of_neg (show ¬ ('.').isDigit = true by decide),
    List.dropWhile_cons_of_neg (show ¬ ('.').isDigit = true by decide), hplaces, List.append_nil]
  rw [List.takeWhile_append_of_pos hd']
  simp

theorem cutNumber_digits {digits : List Char} (hd : ∀ c ∈ digits, c.isDigit = true) :
    cutNumber digits = ⟨.number (Number.ofPlaces digits []), digits, []⟩ := by
  have htake : digits.takeWhile Char.isDigit = digits := List.takeWhile_eq_self_iff.2 hd
  have hdrop : digits.dropWhile Char.isDigit = [] := List.dropWhile_eq_nil_iff.2 hd
  rw [cutNumber, htake, hdrop]

theorem cutNumber_places {digits places : List Char} (hd : ∀ c ∈ digits, c.isDigit = true)
    (hne' : places ≠ []) (hd' : ∀ c ∈ places, c.isDigit = true) :
    cutNumber (digits ++ '.' :: places) =
      ⟨.number (Number.ofPlaces digits places), digits ++ '.' :: places, []⟩ := by
  have htake : places.takeWhile Char.isDigit = places := List.takeWhile_eq_self_iff.2 hd'
  have hdrop : places.dropWhile Char.isDigit = [] := List.dropWhile_eq_nil_iff.2 hd'
  unfold cutNumber
  rw [List.takeWhile_append_of_pos hd, List.dropWhile_append_of_pos hd]
  simp only [List.takeWhile_cons_of_neg (show ¬ ('.').isDigit = true by decide),
    List.dropWhile_cons_of_neg (show ¬ ('.').isDigit = true by decide), htake, hdrop, List.append_nil]
  rw [if_neg (by simpa using hne')]

/-- What is cut off a text that starts with a digit is a number. -/
theorem spelled_cutNumber {c : Char} (cs : List Char) (hc : c.isDigit = true) :
    Spelled dialect (cutNumber (c :: cs)).chars (cutNumber (c :: cs)).kind := by
  have hdigits (cs : List Char) : ∀ d ∈ cs.takeWhile Char.isDigit, d.isDigit = true := by
    intro d hd
    exact List.mem_takeWhile_imp hd
  have hne : (c :: cs).takeWhile Char.isDigit ≠ [] := by simp [hc]
  unfold cutNumber
  dsimp only
  split
  · split
    · exact .whole hne (hdigits _)
    · next hplaces => exact .point hne (hdigits _) (by simpa using hplaces) (hdigits _)
  · exact .whole hne (hdigits _)

/-! ## Symbols -/

/-- No symbol of a dialect stands behind one that it starts with. -/
theorem pairwise_ofDialect (dialect : Dialect) : (Symbol.ofDialect dialect).Pairwise fun s t =>
    s.spelling.toList <+: t.spelling.toList → False := by
  cases dialect <;> decide

theorem cutSymbol?_longest {symbols : List Symbol} {s : Symbol} (hs : s ∈ symbols)
    (hsymbols : symbols.Pairwise fun s t => s.spelling.toList <+: t.spelling.toList → False)
    (rest : List Char) :
    ∃ lexeme, cutSymbol? symbols (s.spelling.toList ++ rest) = some lexeme ∧
      s.spelling.toList.length ≤ lexeme.chars.length := by
  induction symbols with
  | nil => cases hs
  | cons t symbols ih =>
      rw [List.pairwise_cons] at hsymbols
      unfold cutSymbol?
      dsimp only
      split
      next ht =>
        refine ⟨_, rfl, ?_⟩
        rcases List.mem_cons.1 hs with rfl | hs
        · exact Nat.le_refl _
        · -- Of two symbols that a text starts with, the later one is the shorter one.
          rcases List.prefix_or_prefix_of_prefix (List.isPrefixOf_iff_prefix.1 ht)
            (List.prefix_append s.spelling.toList rest) with h | h
          · exact (hsymbols.1 s hs h).elim
          · exact h.length_le
      next ht =>
        rcases List.mem_cons.1 hs with rfl | hs
        · exact absurd (List.isPrefixOf_iff_prefix.2 (List.prefix_append _ _)) ht
        · exact ih hs hsymbols.2

theorem spelled_cutSymbol? {symbols : List Symbol} {cs : List Char} {lexeme : Lexeme}
    (h : cutSymbol? symbols cs = some lexeme) :
    ∃ s ∈ symbols, lexeme.chars = s.spelling.toList ∧ lexeme.kind = .symbol s := by
  induction symbols with
  | nil => cases h
  | cons s symbols ih =>
      unfold cutSymbol? at h
      dsimp only at h
      split at h
      · cases h
        exact ⟨s, List.mem_cons_self, rfl, rfl⟩
      · obtain ⟨t, ht, hlexeme⟩ := ih h
        exact ⟨t, List.mem_cons_of_mem _ ht, hlexeme⟩

/-! ## What is cut off -/

/-- A text that starts with a token is not refused, and what is cut off it is no shorter. -/
theorem cutLexeme_of_spelled {chars rest cs : List Char} {kind : TokenKind} {c : Char}
    (h : Spelled dialect chars kind) (hcs : c :: cs = chars ++ rest) :
    ∃ lexeme, cutLexeme dialect c cs = .ok lexeme ∧ chars.length ≤ lexeme.chars.length := by
  unfold cutLexeme
  cases h with
  | word h =>
      obtain ⟨d, ds, rfl, hd, hcut⟩ := h.prefix_cut rest
      obtain ⟨rfl, rfl⟩ := List.cons.inj hcs
      rw [if_pos hd]
      exact ⟨_, rfl, (hcut []).length_le⟩
  | whole hne hd =>
      obtain ⟨d, ds, rfl⟩ := List.exists_cons_of_ne_nil hne
      obtain ⟨rfl, rfl⟩ := List.cons.inj hcs
      have hdigit := hd c List.mem_cons_self
      rw [if_neg (by simp [isNameStart_of_isDigit hdigit]), if_pos hdigit]
      exact ⟨_, rfl, (cutNumber_whole hd).length_le⟩
  | point hne hd hne' hd' =>
      obtain ⟨d, ds, rfl⟩ := List.exists_cons_of_ne_nil hne
      obtain ⟨rfl, rfl⟩ := List.cons.inj hcs
      have hdigit := hd c List.mem_cons_self
      rw [if_neg (by simp [isNameStart_of_isDigit hdigit]), if_pos hdigit]
      exact ⟨_, rfl, (cutNumber_point hd hne' hd').length_le⟩
  | text h =>
      rw [List.cons_append, List.append_assoc] at hcs
      obtain ⟨rfl, rfl⟩ := List.cons.inj hcs
      rw [if_neg (by decide), if_neg (by decide), if_pos rfl, List.singleton_append, cutString_quoted h]
      exact ⟨_, rfl, by simp⟩
  | @symbol s hs =>
      obtain ⟨d, ds, hchars, -, -, hname, hdigit, hquote⟩ := s.first
      obtain ⟨lexeme, hlexeme, hlength⟩ := cutSymbol?_longest hs (pairwise_ofDialect dialect) rest
      rw [← hcs] at hlexeme
      rw [hchars] at hcs
      obtain ⟨rfl, -⟩ := List.cons.inj hcs
      rw [if_neg (by simp [hname]), if_neg (by simp [hdigit]), if_neg hquote, hlexeme]
      exact ⟨lexeme, rfl, hlength⟩

/-- What is cut off a text is a token. -/
theorem spelled_cutLexeme {c : Char} {cs : List Char} {lexeme : Lexeme}
    (h : cutLexeme dialect c cs = .ok lexeme) : Spelled dialect lexeme.chars lexeme.kind := by
  unfold cutLexeme at h
  split at h
  · next hname =>
      cases h
      exact .word (nameChars_cutName ⟨[], c, [], rfl, id, hname, List.forall_mem_nil _, rfl⟩)
  · split at h
    · next hdigit =>
        cases h
        exact spelled_cutNumber cs hdigit
    · split at h
      · split at h
        · next hcut =>
            cases h
            obtain ⟨inside, value, hquoted, -, rfl, rfl⟩ := quoted_of_cutString hcut
            exact .text hquoted
        · cases h
      · split at h
        · next hcut =>
            cases h
            obtain ⟨s, hs, hchars, hkind⟩ := spelled_cutSymbol? hcut
            rw [hchars, hkind]
            exact .symbol hs
        · cases h

theorem Spelled.ne_nil {chars : List Char} {kind : TokenKind} (h : Spelled dialect chars kind) :
    chars ≠ [] := by
  cases h with
  | word h => cases h <;> exact List.cons_ne_nil _ _
  | whole hne => exact hne
  | point | text => simp
  | @symbol s => exact s.spelling_ne_nil

/-- A text that is a token is cut off as this token. -/
theorem Spelled.cut {c : Char} {cs : List Char} {kind : TokenKind} (h : Spelled dialect (c :: cs) kind) :
    cutLexeme dialect c cs = .ok ⟨kind, c :: cs, []⟩ := by
  unfold cutLexeme
  generalize hchars : c :: cs = chars at h
  cases h with
  | word h =>
      obtain ⟨d, ds, rfl, hd, hcut⟩ := h.cut fun _ _ => cutName_apart .done
      obtain ⟨rfl, rfl⟩ := List.cons.inj hchars
      have hcut' := hcut []
      rw [List.append_nil] at hcut'
      rw [if_pos hd, hcut']
      rfl
  | whole hne hd =>
      subst hchars
      have hdigit := hd c List.mem_cons_self
      rw [if_neg (by simp [isNameStart_of_isDigit hdigit]), if_pos hdigit, cutNumber_digits hd]
  | @point digits places hne hd hne' hd' =>
      obtain ⟨d, ds, rfl⟩ := List.exists_cons_of_ne_nil hne
      obtain ⟨rfl, -⟩ := List.cons.inj hchars
      have hdigit := hd c List.mem_cons_self
      rw [if_neg (by simp [isNameStart_of_isDigit hdigit]), if_pos hdigit,
        cutNumber_places hd hne' hd']
  | text h =>
      obtain ⟨rfl, rfl⟩ := List.cons.inj hchars
      rw [if_neg (by decide), if_neg (by decide), if_pos rfl, cutString_quoted h]
      rfl
  | @symbol s hs =>
      obtain ⟨d, ds, hspelling, -, -, hname, hdigit, hquote⟩ := s.first
      have hcut := cutSymbol?_spelling hs .done
      rw [hspelling] at hchars
      obtain ⟨rfl, rfl⟩ := List.cons.inj hchars
      rw [List.append_nil, hspelling] at hcut
      rw [if_neg (by simp [hname]), if_neg (by simp [hdigit]), if_neg hquote, hspelling, hcut]

/-- What is cut off a text is the longest token that the text starts with. -/
theorem cutLexeme_ok_iff {chars rest cs : List Char} {kind : TokenKind} {c : Char} :
    cutLexeme dialect c cs = .ok ⟨kind, chars, rest⟩ ↔
      chars ++ rest = c :: cs ∧ Longest dialect chars kind rest := by
  constructor
  · intro h
    have happend : chars ++ rest = c :: cs := cutLexeme_append h
    refine ⟨happend, spelled_cutLexeme h, fun {chars' kind'} hspelled hprefix => ?_⟩
    obtain ⟨rest', hrest'⟩ := hprefix
    obtain ⟨lexeme, hlexeme, hlength⟩ := cutLexeme_of_spelled hspelled (happend.symm.trans hrest'.symm)
    rw [h] at hlexeme
    cases hlexeme
    exact hlength
  · rintro ⟨happend, hlongest⟩
    obtain ⟨lexeme, hlexeme, hlength⟩ := cutLexeme_of_spelled hlongest.spelled happend.symm
    have hrest := cutLexeme_append hlexeme
    have hspelled := spelled_cutLexeme hlexeme
    have hlength' := hlongest.longest hspelled ⟨lexeme.rest, hrest.trans happend.symm⟩
    obtain ⟨hchars, hrest⟩ := List.append_inj (hrest.trans happend.symm)
      (Nat.le_antisymm hlength' hlength)
    -- Both are the same text, and so the same token.
    have hkind : lexeme.kind = kind := by
      obtain ⟨d, ds, rfl⟩ := List.exists_cons_of_ne_nil hlongest.spelled.ne_nil
      rw [hchars] at hspelled
      have hcut := hspelled.cut
      rw [hlongest.spelled.cut] at hcut
      cases hcut
      rfl
    rw [hlexeme, ← hchars, ← hrest, ← hkind]

theorem cause_of_cutLexeme {cs : List Char} {c : Char} {cause : Cause}
    (h : cutLexeme dialect c cs = .error cause) :
    cause = if c = '"' then .openString else .strayChar c := by
  unfold cutLexeme at h
  split at h
  · cases h
  · split at h
    · cases h
    · split at h
      · next hquote =>
          split at h
          · cases h
          · cases h
            rw [if_pos hquote]
      · next hquote =>
          split at h
          · cases h
          · cases h
            rw [if_neg hquote]

/-- A text is refused where it starts with no token. -/
theorem cutLexeme_error_iff {cs : List Char} {c : Char} {cause : Cause} :
    cutLexeme dialect c cs = .error cause ↔
      (∀ chars kind, Spelled dialect chars kind → ¬chars <+: c :: cs) ∧
        cause = if c = '"' then .openString else .strayChar c := by
  constructor
  · intro h
    refine ⟨fun chars kind hspelled hprefix => ?_, cause_of_cutLexeme h⟩
    obtain ⟨rest, hrest⟩ := hprefix
    obtain ⟨lexeme, hlexeme, -⟩ := cutLexeme_of_spelled hspelled hrest.symm
    rw [h] at hlexeme
    cases hlexeme
  · rintro ⟨hnone, rfl⟩
    cases hcut : cutLexeme dialect c cs with
    | ok lexeme =>
        exact (hnone _ _ (spelled_cutLexeme hcut) ⟨lexeme.rest, cutLexeme_append hcut⟩).elim
    | error cause => rw [cause_of_cutLexeme hcut]

end ScriptLab.Program
