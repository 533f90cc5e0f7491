import ScriptLab.Number.Text
import ScriptLab.Proofs.Number.Shortest

/-!
# Number texts read back

The display text of a finite double is a number literal that denotes its magnitude, behind a sign if it is
negative and not zero.
-/

namespace ScriptLab.Number

/-! ## Rows of digits -/

theorem ofDigits_append (cs ds : List Char) :
    ofDigits (cs ++ ds) = ofDigits cs * 10 ^ ds.length + ofDigits ds := by
  have h1 : ofDigits (cs ++ ds) = Nat.ofDigitChars 10 (cs ++ ds) 0 := rfl
  rw [h1, Nat.ofDigitChars_append, Nat.ofDigitChars_eq_ofDigitChars_zero, Nat.mul_comm]
  rfl

theorem ofDigits_zeros (n : Nat) : ofDigits (List.replicate n '0') = 0 :=
  Nat.ofDigitChars_replicate_zero

theorem ofDigits_repr (n : Nat) : ofDigits (Nat.repr n).toList = n := by
  rw [Nat.toList_repr]
  exact Nat.ofDigitChars_ten_toDigits

theorem isDigit_of_mem_repr {n : Nat} {c : Char} (h : c ∈ (Nat.repr n).toList) : c.isDigit = true := by
  rw [Nat.toList_repr] at h
  exact Nat.isDigit_of_mem_toDigits (by decide) (by decide) h

theorem repr_ne_nil (n : Nat) : (Nat.repr n).toList ≠ [] := by
  rw [Nat.toList_repr]
  exact Nat.toDigits_ne_nil

theorem isDigit_of_mem_zeros {n : Nat} {c : Char} (h : c ∈ List.replicate n '0') :
    c.isDigit = true := by
  rw [List.eq_of_mem_replicate h]
  rfl

/-- No digits are taken off where none stands first. -/
theorem takeWhile_digits_none {rest : List Char} (h : ∀ c ∈ rest.head?, c.isDigit = false) :
    rest.takeWhile Char.isDigit = [] ∧ rest.dropWhile Char.isDigit = rest := by
  cases rest with
  | nil => exact ⟨rfl, rfl⟩
  | cons c rest =>
    have hc : ¬c.isDigit = true := by simp [h c rfl]
    exact ⟨List.takeWhile_cons_of_neg hc, List.dropWhile_cons_of_neg hc⟩

/-! ## Literals -/

/-- The characters of a number literal that denotes `n · 10 ^ k`. -/
inductive Literal : List Char → Nat → Int → Prop
  | whole {digits} (hne : digits ≠ []) (hd : ∀ c ∈ digits, c.isDigit = true) :
      Literal digits (ofDigits digits) 0
  | point {digits places} (hne : digits ≠ []) (hd : ∀ c ∈ digits, c.isDigit = true)
      (hne' : places ≠ []) (hd' : ∀ c ∈ places, c.isDigit = true) :
      Literal (digits ++ '.' :: places) (ofDigits (digits ++ places)) (-places.length)

theorem Literal.first {cs : List Char} {n : Nat} {k : Int} (h : Literal cs n k) :
    ∃ c rest, cs = c :: rest ∧ c.isDigit = true := by
  cases h with
  | whole hne hd =>
    obtain ⟨c, rest, rfl⟩ := List.exists_cons_of_ne_nil hne
    exact ⟨c, rest, rfl, hd c List.mem_cons_self⟩
  | point hne hd =>
    obtain ⟨c, rest, rfl⟩ := List.exists_cons_of_ne_nil hne
    exact ⟨c, _, rfl, hd c List.mem_cons_self⟩

section Layouts

variable {digits : List Char} (hne : digits ≠ []) (hd : ∀ c ∈ digits, c.isDigit = true)

include hne hd

theorem Literal.of_zeros_before (n : Nat) :
    Literal ('0' :: '.' :: (List.replicate n '0' ++ digits)) (ofDigits digits)
      (-((n + digits.length : Nat) : Int)) := by
  have hplaces : ∀ c ∈ List.replicate n '0' ++ digits, c.isDigit = true := by
    intro c hc
    rcases List.mem_append.1 hc with hc | hc
    · exact isDigit_of_mem_zeros hc
    · exact hd c hc
  have h : Literal (['0'] ++ '.' :: (List.replicate n '0' ++ digits)) _ _ :=
    .point (by simp) (by simp) (by simp [hne]) hplaces
  have hzeros : ['0'] ++ (List.replicate n '0' ++ digits) = List.replicate (n + 1) '0' ++ digits := rfl
  rw [hzeros, ofDigits_append, ofDigits_zeros, Nat.zero_mul, Nat.zero_add, List.length_append,
    List.length_replicate] at h
  exact h

theorem Literal.of_zeros_behind (n : Nat) :
    Literal (digits ++ List.replicate n '0') (ofDigits digits * 10 ^ n) 0 := by
  have hdigits : ∀ c ∈ digits ++ List.replicate n '0', c.isDigit = true := by
    intro c hc
    rcases List.mem_append.1 hc with hc | hc
    · exact hd c hc
    · exact isDigit_of_mem_zeros hc
  have h := Literal.whole (by simp [hne]) hdigits
  rw [ofDigits_append, ofDigits_zeros, Nat.add_zero, List.length_replicate] at h
  exact h

theorem Literal.of_zeros_and_place (n : Nat) :
    Literal (digits ++ List.replicate n '0' ++ ['.', '0']) (ofDigits digits * 10 ^ (n + 1)) (-1) := by
  have hdigits : ∀ c ∈ digits ++ List.replicate n '0', c.isDigit = true := by
    intro c hc
    rcases List.mem_append.1 hc with hc | hc
    · exact hd c hc
    · exact isDigit_of_mem_zeros hc
  have h : Literal (digits ++ List.replicate n '0' ++ '.' :: ['0']) _ _ :=
    .point (by simp [hne]) hdigits (by simp) (by simp)
  rw [List.append_assoc digits _ ['0'], ← List.replicate_succ', ofDigits_append, ofDigits_zeros, Nat.add_zero,
    List.length_replicate] at h
  exact h

omit hne in
theorem Literal.of_split {n : Nat} (hpos : 0 < n) (hlt : n < digits.length) :
    Literal (digits.take n ++ '.' :: digits.drop n) (ofDigits digits)
      (-((digits.length - n : Nat) : Int)) := by
  have h : Literal (digits.take n ++ '.' :: digits.drop n) _ _ :=
    .point (List.ne_nil_of_length_pos (by rw [List.length_take]; omega))
      (fun c hc => hd c (List.mem_of_mem_take hc))
      (List.ne_nil_of_length_pos (by rw [List.length_drop]; omega))
      (fun c hc => hd c (List.mem_of_mem_drop hc))
  rw [List.take_append_drop, List.length_drop] at h
  exact h

/-- Digits that are written without an exponent are a literal, in each of the two styles. -/
theorem positional_literal (style : Style) (hmark : style.wholeMark = "" ∨ style.wholeMark = ".0")
    (exponent : Int) :
    ∃ (n : Nat) (k : Int), (n * 10 ^ k : ℚ) = ofDigits digits * 10 ^ exponent ∧
      Literal (style.positional digits (exponent + digits.length - 1)).toList n k := by
  have hlen : 0 < digits.length := List.length_pos_iff.2 hne
  unfold Style.positional
  split
  next hlead =>
    refine ⟨ofDigits digits, exponent, rfl, ?_⟩
    have h := Literal.of_zeros_before hne hd (-(exponent + digits.length - 1) - 1).toNat
    have hk : -(((-(exponent + digits.length - 1) - 1).toNat + digits.length : Nat) : Int) =
        exponent := by
      omega
    rw [hk] at h
    rw [String.toList_ofList]
    exact h
  next hlead =>
    extract_lets count
    split
    next hle =>
      have hexponent : exponent = (exponent.toNat : Int) := by omega
      have hcount : count - digits.length = exponent.toNat := by omega
      rw [hcount, String.toList_append, String.toList_ofList]
      rcases hmark with hmark | hmark
      · refine ⟨ofDigits digits * 10 ^ exponent.toNat, 0, ?_, ?_⟩
        · conv => rhs; rw [hexponent, zpow_natCast]
          push_cast
          exact mul_one _
        · rw [hmark, String.toList_empty, List.append_nil]
          exact Literal.of_zeros_behind hne hd exponent.toNat
      · refine ⟨ofDigits digits * 10 ^ (exponent.toNat + 1), -1, ?_, ?_⟩
        · conv => rhs; rw [hexponent, zpow_natCast]
          push_cast
          rw [pow_succ, zpow_neg_one]
          field_simp
        · rw [hmark]
          exact Literal.of_zeros_and_place hne hd exponent.toNat
    next hlt =>
      refine ⟨ofDigits digits, exponent, rfl, ?_⟩
      have h := Literal.of_split hd (n := count) (by omega) (by omega)
      have hk : -((digits.length - count : Nat) : Int) = exponent := by omega
      rw [hk] at h
      rw [String.toList_ofList]
      exact h

end Layouts

/-! ## The display text -/

theorem write_literal (d : Decimal) :
    ∃ (n : Nat) (k : Int), (n * 10 ^ k : ℚ) = d.value ∧ Literal (Style.display.write d).toList n k := by
  have h := positional_literal (repr_ne_nil d.digits) (fun c hc => isDigit_of_mem_repr hc) .display
    (.inl rfl) d.exponent
  rw [ofDigits_repr] at h
  exact h

theorem repr_literal (n : Nat) : Literal (Nat.repr n).toList n 0 := by
  have h := Literal.whole (repr_ne_nil n) (fun c hc => isDigit_of_mem_repr hc)
  rw [ofDigits_repr] at h
  exact h

variable {x : Float} {negative : Bool} {m : Nat} {e : Int}

/-- The floor of a whole number is the number itself. -/
theorem Form.floor?_of_isWhole (h : (Form.finite negative m e).isWhole = true) :
    ∃ n : Nat, (n : ℚ) = m * 2 ^ e ∧
      (Form.finite negative m e).floor? = some (if negative then -(n : Int) else n) := by
  rw [isWhole, Bool.or_eq_true, decide_eq_true_iff, beq_iff_eq] at h
  by_cases he : 0 ≤ e
  · refine ⟨m * 2 ^ e.toNat, ?_, ?_⟩
    · have hexponent : e = (e.toNat : Int) := by omega
      conv => rhs; rw [hexponent, zpow_natCast]
      push_cast
      rfl
    · rw [floor?, if_pos he]
      cases negative <;> simp
  · obtain ⟨n, hn⟩ := Nat.dvd_of_mod_eq_zero (h.resolve_left he)
    rw [Nat.pow_eq] at hn
    have hp : (2 ^ (-e).toNat : Int) ≠ 0 := by positivity
    refine ⟨n, ?_, ?_⟩
    · have hzero : e.toNat = 0 := by omega
      rw [zpow_eq_div two_ne_zero, hzero, hn]
      push_cast
      field_simp
    · rw [floor?, if_neg he, hn, Nat.pow_eq]
      push_cast
      cases negative with
      | false => simp only [Bool.false_eq_true, if_false, Int.mul_ediv_cancel_left _ hp]
      | true => simp only [if_true, ← Int.mul_neg, Int.mul_ediv_cancel_left _ hp]

theorem wholeBelow?_eq {bound : Nat} {i : Int} (h : form x = .finite negative m e)
    (hi : wholeBelow? bound x = some i) :
    ∃ n : Nat, (n : ℚ) = m * 2 ^ e ∧ i = if negative then -(n : Int) else n := by
  by_cases hwhole : (Form.finite negative m e).isWhole = true
  · obtain ⟨n, hn, hfloor⟩ := Form.floor?_of_isWhole hwhole
    rw [wholeBelow?, h] at hi
    simp only [hfloor, hwhole, Bool.true_and] at hi
    refine ⟨n, hn, ?_⟩
    generalize (if negative then -(n : Int) else n) = j at hi ⊢
    split at hi
    next => exact (Option.some.inj hi).symm
    next => cases hi
  · rw [wholeBelow?, h] at hi
    cases hfloor : (Form.finite negative m e).floor? with
    | none => simp [hfloor] at hi
    | some j => simp [hfloor, hwhole] at hi

theorem wholeBelow?_zero {bound : Nat} (h : form x = .finite negative 0 e) (hb : 0 < bound) :
    wholeBelow? bound x ≠ none := by
  have hwhole : (Form.finite negative 0 e).isWhole = true := by simp [Form.isWhole]
  obtain ⟨n, hn, hfloor⟩ := Form.floor?_of_isWhole hwhole
  have hzero : n = 0 := by
    rw [Nat.cast_zero, zero_mul] at hn
    exact_mod_cast hn
  rw [wholeBelow?, h]
  simp [hfloor, hwhole, hzero, hb]

theorem natCast_eq_zero_iff {n : Nat} (h : (n : ℚ) = m * 2 ^ e) : n = 0 ↔ m = 0 := by
  have hp : (2 : ℚ) ^ e ≠ 0 := by positivity
  rw [← Nat.cast_eq_zero (R := ℚ), h, mul_eq_zero, or_iff_left hp, Nat.cast_eq_zero]

theorem repr_signed (n : Nat) :
    (Int.repr (if negative then -(n : Int) else n)).toList =
      (if negative && n != 0 then ['-'] else []) ++ (Nat.repr n).toList := by
  rw [Int.repr_eq_if]
  cases negative with
  | false => simp
  | true =>
    rcases Nat.eq_zero_or_pos n with hn | hn
    · subst hn
      rfl
    · rw [if_pos rfl, if_neg (by omega), Int.neg_neg, Int.toNat_natCast, String.toList_append]
      simp [hn.ne']

/-- A decimal with the value of a finite double is read as this double. -/
theorem ofDecimal_eq_double {n : Nat} (negative : Bool) (hc : Canonical m e)
    (hn : (n : ℚ) = m * 2 ^ e) : ofDecimal negative n 0 = double negative m e := by
  rcases Nat.eq_zero_or_pos m with hm | hm
  · have hzero : n = 0 := (natCast_eq_zero_iff hn).2 hm
    have hexponent : e = -1074 := hc.normal.resolve_left (by omega)
    subst hm hzero hexponent
    rfl
  · have hpos : 0 < n := Nat.pos_of_ne_zero (fun h => hm.ne' ((natCast_eq_zero_iff hn).1 h))
    apply ofDecimal_of_contains negative hc hm hpos
    rw [zpow_zero, mul_one, hn]
    exact Interval.contains_self hm

theorem ofDecimal_shortest {n : Nat} {k : Int} (tie : Tie) (negative : Bool) (hc : Canonical m e)
    (hm : 0 < m) (hvalue : (n * 10 ^ k : ℚ) = (shortest tie m e).value) :
    ofDecimal negative n k = double negative m e := by
  have hcontains := shortest_contains tie hc hm
  rw [← hvalue] at hcontains
  have hpos : 0 < n := by
    apply Nat.pos_of_ne_zero
    intro hn
    have h := gt_of_contains hc hm hcontains
    rw [hn, Nat.cast_zero, zero_mul] at h
    exact absurd h (not_lt.2 (by positivity))
  exact ofDecimal_of_contains negative hc hm hpos hcontains

/-- The display text of a finite double is a literal that is read as its magnitude. -/
theorem text_literal (h : form x = .finite negative m e) :
    ∃ digits n k, (text x).toList = (if negative && m != 0 then ['-'] else []) ++ digits ∧
      Literal digits n k ∧ ∀ sign, ofDecimal sign n k = double sign m e := by
  have hc := canonical_of_form h
  rw [text, h]
  dsimp only
  split
  next i hi =>
    obtain ⟨n, hn, hsign⟩ := wholeBelow?_eq h hi
    refine ⟨(Nat.repr n).toList, n, 0, ?_, repr_literal n, fun _ => ofDecimal_eq_double _ hc hn⟩
    have hzero : (m != 0) = (n != 0) := by
      rw [Bool.eq_iff_iff, bne_iff_ne, bne_iff_ne, ne_eq, ne_eq, natCast_eq_zero_iff hn]
    rw [hsign, hzero]
    exact repr_signed n
  next hnone =>
    have hm : m ≠ 0 := by
      intro hm
      subst hm
      exact wholeBelow?_zero h (by decide) hnone
    obtain ⟨n, k, hvalue, hlit⟩ := write_literal (shortest .up m e)
    refine ⟨_, n, k, ?_, hlit, fun _ => ofDecimal_shortest .up _ hc (Nat.pos_of_ne_zero hm) hvalue⟩
    rw [Style.writeFinite, String.toList_append]
    cases negative <;> simp [hm, Style.display]

end ScriptLab.Number
