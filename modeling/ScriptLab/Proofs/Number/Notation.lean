import ScriptLab.Json.Printer
import ScriptLab.Proofs.Number.Text

/-!
# JSON numbers

The JSON text of a finite double follows the grammar of JSON numbers: a sign, digits without zeros in
front of others, places, and an exponent. The decimal that it denotes is read as the double, except that
zero has no sign.
-/

namespace ScriptLab.Number

/-- No zero stands in front of another digit. -/
def Unpadded (cs : List Char) : Prop :=
  ∀ c rest, cs = '0' :: c :: rest → c = '.'

/-- What may stand behind the digits of a JSON number, and the exponent that it denotes. -/
inductive Exponent : List Char → Int → Prop
  | none : Exponent [] 0
  | up {mark sign digits} (hmark : mark = 'e' ∨ mark = 'E') (hsign : sign = [] ∨ sign = ['+'])
      (hne : digits ≠ []) (hd : ∀ c ∈ digits, c.isDigit = true) :
      Exponent (mark :: (sign ++ digits)) (ofDigits digits)
  | down {mark digits} (hmark : mark = 'e' ∨ mark = 'E') (hne : digits ≠ [])
      (hd : ∀ c ∈ digits, c.isDigit = true) : Exponent (mark :: '-' :: digits) (-(ofDigits digits : Int))

/-- The characters of a JSON number that denotes `± n · 10 ^ k`. -/
inductive JsonNumber : List Char → Bool → Nat → Int → Prop
  | positive {cs scale n k j} (h : Literal cs n k) (hzero : Unpadded cs) (hscale : Exponent scale j) :
      JsonNumber (cs ++ scale) false n (k + j)
  | negative {cs n k} (h : JsonNumber cs false n k) : JsonNumber ('-' :: cs) true n k

theorem JsonNumber.of_literal {cs : List Char} {n : Nat} {k : Int} (h : Literal cs n k)
    (hzero : Unpadded cs) : JsonNumber cs false n k := by
  have hnumber := JsonNumber.positive h hzero .none
  rwa [List.append_nil, add_zero] at hnumber

/-- A number starts with a digit or a minus sign. -/
theorem JsonNumber.first {cs : List Char} {negative : Bool} {n : Nat} {k : Int}
    (h : JsonNumber cs negative n k) : ∃ c rest, cs = c :: rest ∧ (c = '-' ∨ c.isDigit = true) := by
  cases h with
  | positive hliteral =>
    obtain ⟨c, others, rfl, hc⟩ := hliteral.first
    exact ⟨c, _, rfl, .inr hc⟩
  | negative => exact ⟨'-', _, rfl, .inl rfl⟩

theorem JsonNumber.signed {cs : List Char} {n : Nat} {k : Int} (negative : Bool)
    (h : JsonNumber cs false n k) :
    JsonNumber ((if negative then ['-'] else []) ++ cs) negative n k := by
  cases negative with
  | false => exact h
  | true => exact h.negative

/-! ## No zeros in front -/

theorem head_repr {n : Nat} (hn : 0 < n) : ∀ c ∈ (Nat.repr n).toList.head?, c ≠ '0' := by
  rw [Nat.toList_repr]
  induction n using Nat.strongRecOn with
  | ind n ih =>
      rw [Nat.toDigits_eq_if (by decide)]
      split
      · rintro _ ⟨⟩
        exact fun h => hn.ne' (Nat.digitChar_eq_zero.1 h)
      · rw [List.head?_append_of_ne_nil _ Nat.toDigits_ne_nil]
        exact ih _ (by omega) (by omega)

theorem Unpadded.of_head {cs : List Char} (h : ∀ c ∈ cs.head?, c ≠ '0') : Unpadded cs := by
  rintro c rest rfl
  exact absurd rfl (h _ rfl)

theorem unpadded_repr (n : Nat) : Unpadded (Nat.repr n).toList := by
  rcases Nat.eq_zero_or_pos n with rfl | hn
  · rintro c rest ⟨⟩
  · exact .of_head (head_repr hn)

/-! ## Layouts -/

theorem exponent_signed (i : Int) :
    Exponent ('e' :: ((if i < 0 then ['-'] else ['+']) ++ (Nat.repr i.natAbs).toList)) i := by
  have hdigits : ∀ c ∈ (Nat.repr i.natAbs).toList, c.isDigit = true := fun c hc =>
    isDigit_of_mem_repr hc
  split
  next hneg =>
    have h := Exponent.down (.inl rfl) (repr_ne_nil i.natAbs) hdigits
    rw [ofDigits_repr, Int.ofNat_natAbs_of_nonpos (Int.le_of_lt hneg), neg_neg] at h
    exact h
  next hpos =>
    have h := Exponent.up (.inl rfl) (.inr rfl) (repr_ne_nil i.natAbs) hdigits
    rw [ofDigits_repr, Int.natAbs_of_nonneg (Int.not_lt.1 hpos)] at h
    exact h

section Layouts

variable {digits : List Char} (hne : digits ≠ []) (hd : ∀ c ∈ digits, c.isDigit = true)
  (hhead : ∀ c ∈ digits.head?, c ≠ '0')

include hne hhead

theorem unpadded_positional (style : Style) (lead : Int) :
    Unpadded (style.positional digits lead).toList := by
  obtain ⟨first, rest, rfl⟩ := List.exists_cons_of_ne_nil hne
  have hfirst : first ≠ '0' := hhead first rfl
  unfold Style.positional
  split
  · rw [String.toList_ofList]
    rintro _ _ ⟨⟩
    rfl
  · extract_lets count
    have hcount : count = lead.toNat + 1 := rfl
    split
    · rw [String.toList_append, String.toList_ofList]
      exact .of_head (by simpa using hfirst)
    · rw [String.toList_ofList, hcount]
      exact .of_head (by simpa using hfirst)

include hd

/-- Digits that are written with an exponent are a JSON number. -/
theorem scientific_number (exponent : Int) :
    JsonNumber (Style.scientific digits (exponent + digits.length - 1)).toList false (ofDigits digits)
      exponent := by
  generalize hlead : exponent + digits.length - 1 = lead
  have hscale := exponent_signed lead
  obtain ⟨first, rest, rfl⟩ := List.exists_cons_of_ne_nil hne
  have hfirst : first ≠ '0' := hhead first rfl
  cases rest with
  | nil =>
      have hnumber := JsonNumber.positive (.whole hne hd) (.of_head hhead) hscale
      have hexponent : 0 + lead = exponent := by
        rw [List.length_singleton] at hlead
        omega
      rw [hexponent] at hnumber
      unfold Style.scientific
      simpa [apply_ite String.toList] using hnumber
  | cons second rest =>
      have hlit := Literal.of_split hd (n := 1) (by decide) (by simp)
      have hzero : Unpadded (first :: '.' :: second :: rest) :=
        .of_head (by simpa using hfirst)
      have hnumber := JsonNumber.positive hlit hzero hscale
      have hexponent : -(((first :: second :: rest).length - 1 : Nat) : Int) + lead = exponent := by
        simp only [List.length_cons] at hlead ⊢
        omega
      rw [hexponent] at hnumber
      unfold Style.scientific
      simpa [apply_ite String.toList] using hnumber

end Layouts

/-! ## The JSON text -/

/-- The JSON text of a positive decimal is a JSON number with its value. -/
theorem write_number {d : Decimal} (hd : 0 < d.digits) :
    ∃ (n : Nat) (k : Int), (n * 10 ^ k : ℚ) = d.value ∧
      JsonNumber (Style.json.write d).toList false n k := by
  have hne := repr_ne_nil d.digits
  have hdigits : ∀ c ∈ (Nat.repr d.digits).toList, c.isDigit = true := fun c hc =>
    isDigit_of_mem_repr hc
  have hhead := head_repr hd
  simp only [Style.write, Style.json]
  split
  · obtain ⟨n, k, hvalue, hlit⟩ := positional_literal hne hdigits Style.json (.inr rfl) d.exponent
    rw [ofDigits_repr] at hvalue
    exact ⟨n, k, hvalue, .of_literal hlit (unpadded_positional hne hhead _ _)⟩
  · have hnumber := scientific_number hne hdigits hhead d.exponent
    rw [ofDigits_repr] at hnumber
    exact ⟨d.digits, d.exponent, rfl, hnumber⟩

variable {x : Float} {negative : Bool} {m : Nat} {e : Int}

theorem shortest_digits_pos (tie : Tie) (hc : Canonical m e) (hm : 0 < m) :
    0 < (shortest tie m e).digits := by
  refine Nat.pos_of_ne_zero fun hzero => ?_
  have h := gt_of_contains hc hm (shortest_contains tie hc hm)
  rw [Decimal.value, hzero, Nat.cast_zero, zero_mul] at h
  exact absurd h (not_lt.2 (by positivity))

/-- The JSON text of a finite double is a JSON number that is read as the double; zero has no sign. -/
theorem json_number (h : form x = .finite negative m e) :
    ∃ n k, JsonNumber (Json.ofNumber x).compact.toList (negative && m != 0) n k ∧
      ∀ sign, ofDecimal sign n k = double sign m e := by
  have hc := canonical_of_form h
  rw [Json.ofNumber]
  split
  next i hi =>
    obtain ⟨n, hn, hsign⟩ := wholeBelow?_eq h hi
    have hzero : (m != 0) = (n != 0) := by
      rw [Bool.eq_iff_iff, bne_iff_ne, bne_iff_ne, ne_eq, ne_eq, natCast_eq_zero_iff hn]
    have htext : (Json.int i).compact.toList = (Int.repr i).toList := rfl
    have hnumber := JsonNumber.of_literal (repr_literal n) (unpadded_repr n)
    refine ⟨n, 0, ?_, fun _ => ofDecimal_eq_double _ hc hn⟩
    rw [htext, hsign, hzero, repr_signed]
    exact hnumber.signed _
  next hnone =>
    have hm : m ≠ 0 := by
      rintro rfl
      exact wholeBelow?_zero h (by decide) hnone
    obtain ⟨n, k, hvalue, hnumber⟩ :=
      write_number (shortest_digits_pos .even hc (Nat.pos_of_ne_zero hm))
    have htext : (Json.real x).compact.toList =
        (if negative then ['-'] else []) ++ (Style.json.write (shortest .even m e)).toList := by
      have hreal : (Json.real x).compact = Json.realText x := rfl
      rw [hreal, Json.realText, h]
      simp only [if_neg hm, Style.writeFinite, String.toList_append]
      cases negative <;> rfl
    have hsign : (negative && m != 0) = negative := by simp [hm]
    rw [hsign, h, htext]
    exact ⟨n, k, hnumber.signed negative, fun _ =>
      ofDecimal_shortest .even _ hc (Nat.pos_of_ne_zero hm) hvalue⟩

/-! ## Reading a number -/

theorem span_digits {digits rest : List Char} (hd : ∀ c ∈ digits, c.isDigit = true)
    (hrest : ∀ c ∈ rest.head?, c.isDigit = false) :
    (digits ++ rest).span Char.isDigit = (digits, rest) := by
  obtain ⟨htake, hdrop⟩ := takeWhile_digits_none hrest
  rw [List.span_eq_takeWhile_dropWhile, List.takeWhile_append_of_pos hd,
    List.dropWhile_append_of_pos hd, htake, hdrop, List.append_nil]

theorem Exponent.head {cs : List Char} {j : Int} (h : Exponent cs j) :
    ∀ c ∈ cs.head?, c.isDigit = false ∧ c ≠ '.' := by
  cases h with
  | none => nofun
  | up hmark | down hmark =>
      rintro _ ⟨⟩
      rcases hmark with rfl | rfl <;> decide

theorem readExponent?_up {sign digits : List Char} (hsign : sign = [] ∨ sign = ['+'])
    (hne : digits ≠ []) (hd : ∀ c ∈ digits, c.isDigit = true) :
    readExponent? (sign ++ digits) = some (ofDigits digits : Int) := by
  have hall : digits.all Char.isDigit = true := List.all_eq_true.2 hd
  unfold readExponent?
  rcases hsign with rfl | rfl
  · obtain ⟨first, rest, rfl⟩ := List.exists_cons_of_ne_nil hne
    have hminus : first ≠ '-' := fun h => absurd (h ▸ hd first List.mem_cons_self) (by decide)
    have hplus : first ≠ '+' := fun h => absurd (h ▸ hd first List.mem_cons_self) (by decide)
    rw [List.nil_append]
    simp [hminus, hplus, hall]
  · simp [hall, hne]

theorem readExponent?_down {digits : List Char} (hne : digits ≠ [])
    (hd : ∀ c ∈ digits, c.isDigit = true) :
    readExponent? ('-' :: digits) = some (-(ofDigits digits : Int)) := by
  have hall : digits.all Char.isDigit = true := List.all_eq_true.2 hd
  unfold readExponent?
  simp [hall, hne]

theorem readMagnitude?_eq {cs scale : List Char} {n : Nat} {k j : Int} (negative : Bool)
    (h : Literal cs n k) (hscale : Exponent scale j) :
    readMagnitude? negative (cs ++ scale) = some (ofDecimal negative n (k + j)) := by
  have hdigit : ∀ c ∈ scale.head?, c.isDigit = false := fun c hc => (hscale.head c hc).1
  cases h with
  | whole hne hd =>
      unfold readMagnitude?
      rw [span_digits hd hdigit]
      cases hscale with
      | none => simp [hne]
      | up hmark hsign hne' hd' =>
          have hread := readExponent?_up hsign hne' hd'
          rcases hmark with rfl | rfl <;> simp [hne, hread]
      | down hmark hne' hd' =>
          have hread := readExponent?_down hne' hd'
          rcases hmark with rfl | rfl <;> simp [hne, hread]
  | point hne hd hne' hd' =>
      unfold readMagnitude?
      rw [List.append_assoc, span_digits hd (by rintro _ ⟨⟩; rfl), List.cons_append]
      simp only [span_digits hd' hdigit]
      cases hscale with
      | none => simp [hne]
      | up hmark hsign hne' hd' =>
          have hread := readExponent?_up hsign hne' hd'
          rcases hmark with rfl | rfl <;> simp [hne, hread, add_comm, sub_eq_add_neg]
      | down hmark hne' hd' =>
          have hread := readExponent?_down hne' hd'
          rcases hmark with rfl | rfl <;> simp [hne, hread, add_comm, sub_eq_add_neg]

/-- No word is read where a digit stands first. -/
theorem word_ne {c : Char} (cs : List Char) (hc : c.isDigit = true) (word : String)
    (hword : ∀ d ∈ word.toList.head?, d.isDigit = false) :
    String.ofList ((c :: cs).map Char.toLower) ≠ word := by
  intro heq
  have hn : 48 ≤ c.toNat ∧ c.toNat ≤ 57 := Char.isDigit_iff_toNat.1 hc
  have hlower : c.toLower = c := by
    unfold Char.toLower
    rw [dif_neg]
    rintro ⟨hupper, -⟩
    have h65 : 65 ≤ c.toNat := hupper
    omega
  have h := hword c.toLower (by simp [← heq])
  rw [hlower, hc] at h
  cases h

/-- A literal with an exponent behind it and a sign is read as the decimal that it denotes. -/
theorem read?_scaled {cs scale : List Char} {n : Nat} {k j : Int} (negative : Bool)
    (h : Literal cs n k) (hscale : Exponent scale j) :
    read? (String.ofList ((if negative then ['-'] else []) ++ (cs ++ scale))) =
      some (ofDecimal negative n (k + j)) := by
  obtain ⟨c, rest, hcs, hc⟩ : ∃ c rest, cs ++ scale = c :: rest ∧ c.isDigit = true := by
    cases h with
    | whole hne hd | point hne hd =>
        obtain ⟨first, rest, rfl⟩ := List.exists_cons_of_ne_nil hne
        exact ⟨first, _, rfl, hd first List.mem_cons_self⟩
  have hminus : c ≠ '-' := fun h => absurd (h ▸ hc) (by decide)
  have hplus : c ≠ '+' := fun h => absurd (h ▸ hc) (by decide)
  have hread := readMagnitude?_eq negative h hscale
  have hinf := word_ne rest hc "inf" (by simp)
  have hinfinity := word_ne rest hc "infinity" (by simp)
  have hnan := word_ne rest hc "nan" (by simp)
  rw [hcs] at hread ⊢
  unfold read?
  rw [String.toList_ofList]
  cases negative with
  | false => simp [-List.map_cons, hminus, hplus, hinf, hinfinity, hnan, hread]
  | true => simp [-List.map_cons, hinf, hinfinity, hnan, hread]

/-- A JSON number is read as the decimal that it denotes. -/
theorem JsonNumber.read {cs : List Char} {negative : Bool} {n : Nat} {k : Int}
    (h : JsonNumber cs negative n k) :
    read? (String.ofList cs) = some (ofDecimal negative n k) := by
  cases h with
  | positive hlit _ hscale => exact read?_scaled false hlit hscale
  | negative h =>
      cases h with
      | positive hlit _ hscale => exact read?_scaled true hlit hscale

end ScriptLab.Number
