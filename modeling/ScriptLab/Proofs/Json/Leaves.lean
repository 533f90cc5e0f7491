import ScriptLab.Proofs.Json.Grammar

/-!
# Reading blanks, strings and numbers

Blanks are left out, a string is read as the characters that it denotes, and a number is read up to what
may stand behind a value.
-/

namespace ScriptLab.Json

/-! ## Blanks -/

theorem isBlank_iff (c : Char) : isBlank c = true ↔ c = ' ' ∨ c = '\n' ∨ c = '\r' ∨ c = '\t' := by
  simp [isBlank, or_assoc]

theorem skipBlanks_append {gap : List Char} (hgap : Blank gap) (cs : List Char) :
    skipBlanks (gap ++ cs) = skipBlanks cs :=
  List.dropWhile_append_of_pos fun c hc => (isBlank_iff c).2 (hgap c hc)

theorem skipBlanks_cons {c : Char} (hc : isBlank c = false) (cs : List Char) :
    skipBlanks (c :: cs) = c :: cs :=
  List.dropWhile_cons_of_neg (by simp [hc])

/-! ## Strings -/

theorem hexValue?_digit {c : Char} {value : Nat} (h : HexDigit c value) :
    hexValue? c = some value := by
  obtain ⟨hlt, hc⟩ := h
  rcases hc with rfl | rfl <;> interval_cases value <;> decide

/-- The characters behind the mark of a unit are read as its digits. -/
theorem readPieces_digits (a b c d : Char) (rest : List Char) :
    readPieces ('\\' :: 'u' :: a :: b :: c :: d :: rest) = do
      let n ← unitValue? a b c d
      let (pieces, rest) ← readPieces rest
      return (.unit n :: pieces, rest) := rfl

/-- Four digits are read as a unit. -/
theorem readPieces_unit {digits : List Char} {n : Nat} (h : Hex digits n) (rest : List Char) :
    readPieces ('\\' :: 'u' :: (digits ++ rest)) =
      (readPieces rest).map fun found => (.unit n :: found.1, found.2) := by
  cases h with
  | four ha hb hc hd =>
    simp only [List.cons_append, List.nil_append, readPieces_digits, unitValue?, hexValue?_digit ha,
      hexValue?_digit hb, hexValue?_digit hc, hexValue?_digit hd]
    cases readPieces rest <;> rfl

theorem readPieces_short {mark c : Char} (h : (mark, c) ∈ shortEscapes) (rest : List Char) :
    readPieces ('\\' :: mark :: rest) =
      (readPieces rest).map fun found => (.char c :: found.1, found.2) := by
  have hmap : (do let (pieces, rest) ← readPieces rest; return (.char c :: pieces, rest)) =
      (readPieces rest).map fun found => (Piece.char c :: found.1, found.2) := by
    cases readPieces rest <;> rfl
  rw [← hmap]
  simp only [shortEscapes, List.mem_cons, Prod.mk.injEq, List.not_mem_nil, or_false] at h
  rcases h with ⟨rfl, rfl⟩ | ⟨rfl, rfl⟩ | ⟨rfl, rfl⟩ | ⟨rfl, rfl⟩ | ⟨rfl, rfl⟩ | ⟨rfl, rfl⟩ |
    ⟨rfl, rfl⟩ | ⟨rfl, rfl⟩ <;> rfl

theorem readPieces_plain {c : Char} (h : Plain c) (rest : List Char) :
    readPieces (c :: rest) =
      (readPieces rest).map fun found => (.char c :: found.1, found.2) := by
  obtain ⟨hquote, hslash, hcontrol⟩ := h
  rw [readPieces]
  · rw [if_neg (by omega)]
    cases readPieces rest <;> rfl
  · exact hquote
  · rintro a b c d rest' rfl
    exact absurd rfl hslash
  · rintro d rest' rfl
    exact absurd rfl hslash

/-- A body is read up to the quote behind it. -/
theorem Body.read {cs : List Char} (h : Body cs) :
    ∃ pieces, ∀ rest, readPieces (cs ++ '"' :: rest) = some (pieces, rest) := by
  induction h with
  | nil => exact ⟨[], fun rest => rfl⟩
  | @plain c _ hc _ ih =>
    obtain ⟨pieces, hread⟩ := ih
    refine ⟨.char c :: pieces, fun rest => ?_⟩
    rw [List.cons_append, readPieces_plain hc, hread]
    rfl
  | @short _ c _ hmark _ ih =>
    obtain ⟨pieces, hread⟩ := ih
    refine ⟨.char c :: pieces, fun rest => ?_⟩
    rw [List.cons_append, List.cons_append, readPieces_short hmark, hread]
    rfl
  | @unit _ n _ hdigits _ ih =>
    obtain ⟨pieces, hread⟩ := ih
    refine ⟨.unit n :: pieces, fun rest => ?_⟩
    rw [List.cons_append, List.cons_append, List.append_assoc, readPieces_unit hdigits, hread]
    rfl

/-- No character is half of another one. -/
theorem not_half (c : Char) : isHighUnit c.toNat = false ∧ isLowUnit c.toNat = false := by
  have hvalid : c.toNat < 0xd800 ∨ 0xdfff < c.toNat ∧ c.toNat < 0x110000 := c.valid
  constructor
  · rw [Bool.eq_false_iff]
    intro hhigh
    simp [isHighUnit] at hhigh
    omega
  · rw [Bool.eq_false_iff]
    intro hlow
    simp [isLowUnit] at hlow
    omega

theorem joinPieces?_char (c : Char) (pieces : List Piece) :
    joinPieces? (.char c :: pieces) = (joinPieces? pieces).map (c :: ·) := rfl

/-- Of two units in a row the first one is half of a character, or it is one on its own. -/
theorem joinPieces?_units (high low : Nat) (pieces : List Piece) :
    joinPieces? (.unit high :: .unit low :: pieces) =
      if isHighUnit high then
        if isLowUnit low then
          (joinPieces? pieces).map
            (Char.ofNat (0x10000 + 0x400 * (high - 0xd800) + (low - 0xdc00)) :: ·)
        else none
      else if isLowUnit high then none
      else (joinPieces? (.unit low :: pieces)).map (Char.ofNat high :: ·) := rfl

theorem joinPieces?_unit (c : Char) (pieces : List Piece) :
    joinPieces? (.unit c.toNat :: pieces) = (joinPieces? pieces).map (c :: ·) := by
  obtain ⟨hhigh, hlow⟩ := not_half c
  have hsame : Char.ofNat c.toNat = c := Char.ofNat_toNat c
  -- A unit with no unit behind it.
  have halone : (if isHighUnit c.toNat || isLowUnit c.toNat then none
      else (joinPieces? pieces).map (Char.ofNat c.toNat :: ·)) = (joinPieces? pieces).map (c :: ·) := by
    rw [hhigh, hlow, hsame]
    rfl
  cases pieces with
  | nil => exact halone
  | cons piece rest =>
    cases piece with
    | char => exact halone
    | unit low => rw [joinPieces?_units, hhigh, hlow, hsame, if_neg nofun, if_neg nofun]

theorem joinPieces?_pair {c : Char} {high low : Nat} (h : Halves c high low) (pieces : List Piece) :
    joinPieces? (.unit high :: .unit low :: pieces) = (joinPieces? pieces).map (c :: ·) := by
  obtain ⟨hhigh, hhigh', hlow, hlow', hc⟩ := h
  have hisHigh : isHighUnit high = true := by simp [isHighUnit, hhigh, hhigh']
  have hisLow : isLowUnit low = true := by simp [isLowUnit, hlow, hlow']
  have hsame : Char.ofNat (0x10000 + 0x400 * (high - 0xd800) + (low - 0xdc00)) = c := by
    rw [← hc]
    exact Char.ofNat_toNat c
  rw [joinPieces?_units, if_pos hisHigh, if_pos hisLow, hsame]

/-- A body is read as the characters that it denotes. -/
theorem Spells.read {cs text : List Char} (h : Spells cs text) :
    ∃ pieces, joinPieces? pieces = some text ∧
      ∀ rest, readPieces (cs ++ '"' :: rest) = some (pieces, rest) := by
  induction h with
  | nil => exact ⟨[], rfl, fun rest => rfl⟩
  | @plain c _ _ hc _ ih =>
    obtain ⟨pieces, hjoin, hread⟩ := ih
    refine ⟨.char c :: pieces, by rw [joinPieces?_char, hjoin]; rfl, fun rest => ?_⟩
    rw [List.cons_append, readPieces_plain hc, hread]
    rfl
  | @short _ c _ _ hmark _ ih =>
    obtain ⟨pieces, hjoin, hread⟩ := ih
    refine ⟨.char c :: pieces, by rw [joinPieces?_char, hjoin]; rfl, fun rest => ?_⟩
    rw [List.cons_append, List.cons_append, readPieces_short hmark, hread]
    rfl
  | @unit _ c _ _ hdigits _ ih =>
    obtain ⟨pieces, hjoin, hread⟩ := ih
    refine ⟨.unit c.toNat :: pieces, by rw [joinPieces?_unit, hjoin]; rfl, fun rest => ?_⟩
    rw [List.cons_append, List.cons_append, List.append_assoc, readPieces_unit hdigits, hread]
    rfl
  | @pair _ _ high low _ _ _ hfirst hsecond hc _ ih =>
    obtain ⟨pieces, hjoin, hread⟩ := ih
    refine ⟨.unit high :: .unit low :: pieces, by rw [joinPieces?_pair hc, hjoin]; rfl,
      fun rest => ?_⟩
    rw [List.cons_append, List.cons_append, List.append_assoc, readPieces_unit hfirst,
      List.cons_append, List.cons_append, List.append_assoc, readPieces_unit hsecond, hread]
    rfl

/-- A string is read, and what its body denotes is what it is read as. -/
theorem Body.readString {cs : List Char} (h : Body cs) :
    ∃ read : Option String, (∀ text, Spells cs text → read = some (String.ofList text)) ∧
      ∀ rest, readString (cs ++ '"' :: rest) = some (read, rest) := by
  obtain ⟨pieces, hread⟩ := h.read
  refine ⟨(joinPieces? pieces).map String.ofList, fun text hspells => ?_, fun rest => ?_⟩
  · obtain ⟨others, hjoin, hothers⟩ := hspells.read
    have hsame := hothers []
    rw [hread] at hsame
    cases hsame
    rw [hjoin]
    rfl
  · unfold Json.readString
    rw [hread]
    rfl

/-! ## Numbers -/

/-- What may stand behind a value. -/
def Ends (rest : List Char) : Prop :=
  ∀ c ∈ rest.head?, c = ' ' ∨ c = '\n' ∨ c = '\r' ∨ c = '\t' ∨ c = ',' ∨ c = ']' ∨ c = '\x7d'

/-- What may stand behind a value does not go on with a number. -/
theorem Ends.number {rest : List Char} (h : Ends rest) :
    ∀ c ∈ rest.head?, c.isDigit = false ∧ c ≠ '.' ∧ c ≠ 'e' ∧ c ≠ 'E' := by
  intro c hc
  rcases h c hc with rfl | rfl | rfl | rfl | rfl | rfl | rfl <;> decide

theorem readDigits_append {digits rest : List Char} (hne : digits ≠ [])
    (hd : ∀ c ∈ digits, c.isDigit = true) (hrest : ∀ c ∈ rest.head?, c.isDigit = false) :
    readDigits (digits ++ rest) = some (digits, rest) := by
  unfold readDigits
  rw [Number.span_digits hd hrest]
  obtain ⟨first, others, rfl⟩ := List.exists_cons_of_ne_nil hne
  rfl

/-- Digits are read as a whole number, if no zero stands in front of another one of them. -/
theorem readWhole_append {digits rest : List Char} (hne : digits ≠ [])
    (hd : ∀ c ∈ digits, c.isDigit = true) (hzero : Number.Unpadded digits)
    (hrest : ∀ c ∈ rest.head?, c.isDigit = false) :
    readWhole (digits ++ rest) = some (Number.ofDigits digits, rest) := by
  obtain ⟨first, others, rfl⟩ := List.exists_cons_of_ne_nil hne
  by_cases hfirst : first = '0'
  · subst hfirst
    cases others with
    | nil => rfl
    | cons second more =>
      have hpoint := hzero second more rfl
      subst hpoint
      exact absurd (hd '.' (by simp)) (by decide)
  · rw [List.cons_append, readWhole]
    · rw [← List.cons_append, readDigits_append hne hd hrest]
      rfl
    · rintro rest' heq
      exact hfirst (List.cons.inj heq).1

theorem readPlaces_none {rest : List Char} (hrest : ∀ c ∈ rest.head?, c ≠ '.') :
    readPlaces rest = some (false, rest) := by
  cases rest with
  | nil => rfl
  | cons c rest =>
    rw [readPlaces]
    rintro rest' heq
    exact hrest c rfl (List.cons.inj heq).1

theorem readPlaces_append {places rest : List Char} (hne : places ≠ [])
    (hd : ∀ c ∈ places, c.isDigit = true) (hrest : ∀ c ∈ rest.head?, c.isDigit = false) :
    readPlaces ('.' :: (places ++ rest)) = some (true, rest) := by
  rw [readPlaces, readDigits_append hne hd hrest]
  rfl

theorem readExponent_none {rest : List Char} (hrest : ∀ c ∈ rest.head?, c ≠ 'e' ∧ c ≠ 'E') :
    readExponent rest = some (false, rest) := by
  cases rest with
  | nil => rfl
  | cons c rest =>
    obtain ⟨he, hE⟩ := hrest c rfl
    simp [readExponent, he, hE]

theorem skipSign_append {sign digits : List Char} (hsign : sign = [] ∨ sign = ['+'] ∨ sign = ['-'])
    (hne : digits ≠ []) (hd : ∀ c ∈ digits, c.isDigit = true) (rest : List Char) :
    skipSign (sign ++ (digits ++ rest)) = digits ++ rest := by
  rcases hsign with rfl | rfl | rfl
  · obtain ⟨first, others, rfl⟩ := List.exists_cons_of_ne_nil hne
    have hfirst := hd first List.mem_cons_self
    rw [List.nil_append, List.cons_append, skipSign]
    · intro rest' heq
      rw [(List.cons.inj heq).1] at hfirst
      exact absurd hfirst (by decide)
    · intro rest' heq
      rw [(List.cons.inj heq).1] at hfirst
      exact absurd hfirst (by decide)
  · rfl
  · rfl

/-- Whether a number has an exponent is read off, whatever the exponent is. -/
theorem readExponent_append {scale : List Char} {j : Int} (h : Number.Exponent scale j) :
    ∃ scaled, ∀ rest, Ends rest → readExponent (scale ++ rest) = some (scaled, rest) := by
  cases h with
  | none => exact ⟨false, fun rest hrest => readExponent_none fun c hc => (hrest.number c hc).2.2⟩
  | up hmark hsign hne hd =>
    refine ⟨true, fun rest hrest => ?_⟩
    rw [List.cons_append, List.append_assoc, readExponent, if_pos hmark,
      skipSign_append (hsign.imp_right .inl) hne hd,
      readDigits_append hne hd fun c hc => (hrest.number c hc).1]
    rfl
  | down hmark hne hd =>
    refine ⟨true, fun rest hrest => ?_⟩
    rw [List.cons_append, List.cons_append, readExponent, if_pos hmark]
    have hskip := skipSign_append (.inr (.inr rfl)) hne hd rest
    rw [List.singleton_append] at hskip
    rw [hskip, readDigits_append hne hd fun c hc => (hrest.number c hc).1]
    rfl

theorem head_behind_exponent {scale rest : List Char} {j : Int} (h : Number.Exponent scale j)
    (hrest : Ends rest) : ∀ c ∈ (scale ++ rest).head?, c.isDigit = false ∧ c ≠ '.' := by
  cases scale with
  | nil => exact fun c hc => ⟨(hrest.number c hc).1, (hrest.number c hc).2.1⟩
  | cons first others => exact h.head

/-- A number without its sign is read up to what stands behind it. -/
theorem readMagnitude_append {cs scale : List Char} {n : Nat} {k j : Int} (signed : Bool)
    (h : Number.Literal cs n k) (hzero : Number.Unpadded cs) (hscale : Number.Exponent scale j) :
    ∃ document, ∀ rest, Ends rest →
      readMagnitude signed (cs ++ scale ++ rest) = some (document, rest) := by
  obtain ⟨scaled, hexponent⟩ := readExponent_append hscale
  cases h with
  | whole hne hd =>
    refine ⟨if signed || false || scaled then .number else .natural (Number.ofDigits cs),
      fun rest hrest => ?_⟩
    have hbehind := head_behind_exponent hscale hrest
    unfold readMagnitude
    rw [List.append_assoc, readWhole_append hne hd hzero fun c hc => (hbehind c hc).1]
    simp [readPlaces_none fun c hc => (hbehind c hc).2, hexponent rest hrest]
  | @point digits places hne hd hne' hd' =>
    refine ⟨.number, fun rest hrest => ?_⟩
    have hpoint : ∀ c ∈ ('.' :: (places ++ (scale ++ rest))).head?, c.isDigit = false := by
      rintro _ ⟨⟩
      decide
    have hzero' : Number.Unpadded digits := by
      rintro c others rfl
      exact hzero c _ rfl
    have hdigit : ∀ c ∈ (scale ++ rest).head?, c.isDigit = false := fun c hc =>
      (head_behind_exponent hscale hrest c hc).1
    unfold readMagnitude
    rw [List.append_assoc, List.append_assoc, List.cons_append,
      readWhole_append hne hd hzero' hpoint]
    simp [readPlaces_append hne' hd' hdigit, hexponent rest hrest]

/-- Every number is read up to what stands behind it. -/
theorem readNumber_append {cs : List Char} {negative : Bool} {n : Nat} {k : Int}
    (h : Number.JsonNumber cs negative n k) :
    ∃ document, ∀ rest, Ends rest → readNumber (cs ++ rest) = some (document, rest) := by
  cases h with
  | positive hliteral hzero hscale =>
    obtain ⟨document, hread⟩ := readMagnitude_append false hliteral hzero hscale
    obtain ⟨c, others, rfl, hc⟩ := hliteral.first
    have hminus : c ≠ '-' := by
      rintro rfl
      exact absurd hc (by decide)
    refine ⟨document, fun rest hrest => ?_⟩
    rw [List.cons_append, List.cons_append, readNumber]
    · exact hread rest hrest
    · intro rest' heq
      exact hminus (List.cons.inj heq).1
  | negative hpositive =>
    cases hpositive with
    | positive hliteral hzero hscale => exact readMagnitude_append true hliteral hzero hscale

/-- The digits of a natural number are read as the number. -/
theorem readNumber_natural (n : Nat) {rest : List Char} (hrest : Ends rest) :
    readNumber ((Nat.repr n).toList ++ rest) = some (.natural n, rest) := by
  have hd : ∀ c ∈ (Nat.repr n).toList, c.isDigit = true := fun c hc => Number.isDigit_of_mem_repr hc
  have hwhole := readWhole_append (Number.repr_ne_nil n) hd (Number.unpadded_repr n)
    fun c hc => (hrest.number c hc).1
  have hplaces := readPlaces_none fun c hc => (hrest.number c hc).2.1
  have hexponent := readExponent_none fun c hc => (hrest.number c hc).2.2
  obtain ⟨c, others, heq⟩ := List.exists_cons_of_ne_nil (Number.repr_ne_nil n)
  rw [heq] at hd hwhole ⊢
  rw [List.cons_append, readNumber]
  · unfold readMagnitude
    rw [← List.cons_append, hwhole, ← heq, Number.ofDigits_repr]
    simp [hplaces, hexponent]
  · intro rest' hminus
    have hc := hd c List.mem_cons_self
    rw [(List.cons.inj hminus).1] at hc
    exact absurd hc (by decide)

end ScriptLab.Json
