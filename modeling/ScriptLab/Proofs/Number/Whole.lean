import ScriptLab.Number.Arithmetic
import ScriptLab.Proofs.Number.Sign
import ScriptLab.Proofs.Number.Text

/-!
# Doubles as rational numbers

A finite double is a rational number. Rounding down, the test for whole numbers and the use as an index
depend on this number alone, and a whole number that is some double is made into a double exactly.
-/

namespace ScriptLab.Number

/-- The rational number that a form denotes, if it is finite. -/
def Form.value? : Form → Option ℚ
  | .finite negative mantissa exponent =>
    some ((if negative then -mantissa else mantissa : Int) * 2 ^ exponent)
  | _ => none

/-- The rational number that a double is, if it is finite. -/
def value? (x : Float) : Option ℚ :=
  (form x).value?

variable {x : Float} {v : ℚ} {negative : Bool} {m : Nat} {e : Int}

theorem abs_value (negative : Bool) (m : Nat) (e : Int) :
    |((if negative then -m else m : Int) * 2 ^ e : ℚ)| = m * 2 ^ e := by
  have hp : (0 : ℚ) < 2 ^ e := by positivity
  rw [abs_mul, abs_of_pos hp]
  cases negative <;> simp

theorem exists_form_of_value? (h : value? x = some v) :
    ∃ negative m e, form x = .finite negative m e ∧
      ((if negative then -m else m : Int) * 2 ^ e : ℚ) = v := by
  unfold value? at h
  cases hform : form x with
  | nan => simp [hform, Form.value?] at h
  | infinite => simp [hform, Form.value?] at h
  | finite negative m e =>
    rw [hform] at h
    exact ⟨negative, m, e, rfl, Option.some.inj h⟩

/-! ## The form of a double made from its parts -/

theorem toNat_toBits_double (hc : Canonical m e) (negative : Bool) :
    (double negative m e).toBits.toNat =
      (if negative then 2 ^ 63 else 0) + ((e + 1074).toNat * 2 ^ 52 + m) := by
  have h1 := hc.mantissa_lt
  have h2 := hc.exponent_le
  have hnat : (magnitudeBits m e).toNat = (e + 1074).toNat * 2 ^ 52 + m := by
    rw [← Nat.shiftLeft_eq]
    exact UInt64.toNat_ofNat_of_lt' (by simp only [UInt64.size]; omega)
  rw [toBits_double hc, UInt64.toNat_or, hnat]
  cases negative with
  | false => simp [signBit]
  | true => exact (Nat.two_pow_add_eq_or_of_lt (i := 63) (by omega) 1).symm

theorem form_double (hc : Canonical m e) (negative : Bool) :
    form (double negative m e) = .finite negative m e := by
  have h1 := hc.mantissa_lt
  have h2 := hc.exponent_ge
  have h3 := hc.exponent_le
  rw [form_eq]
  generalize hbits : (double negative m e).toBits.toNat = bits
  rw [toNat_toBits_double hc] at hbits
  have hsign : decide (2 ^ 63 ≤ bits) = negative := by
    cases negative <;> simp at hbits ⊢ <;> omega
  have hlow : bits % 2 ^ 63 = (e + 1074).toNat * 2 ^ 52 + m := by
    split at hbits <;> omega
  rw [hsign]
  rcases Nat.lt_or_ge m (2 ^ 52) with hm | hm
  · have hexponent : e = -1074 := hc.normal.resolve_left (by omega)
    have hbiased : bits / 2 ^ 52 % 2 ^ 11 = 0 := by omega
    have hfraction : bits % 2 ^ 52 = m := by omega
    rw [hbiased, hfraction, if_neg (by decide), if_pos rfl, hexponent]
  · have hbiased : bits / 2 ^ 52 % 2 ^ 11 = (e + 1075).toNat := by omega
    have hfraction : bits % 2 ^ 52 + 0x10000000000000 = m := by omega
    have hexponent : ((e + 1075).toNat : Int) - 1075 = e := by omega
    rw [hbiased, hfraction, hexponent, if_neg (by omega), if_neg (by omega)]

theorem value?_double (hc : Canonical m e) (negative : Bool) :
    value? (double negative m e) = some ((if negative then -m else m : Int) * 2 ^ e : ℚ) := by
  rw [value?, form_double hc]
  rfl

/-! ## Rounding down -/

namespace Form

theorem floor?_eq (f : Form) : f.floor? = f.value?.map Int.floor := by
  cases f with
  | nan => rfl
  | infinite negative => rfl
  | finite negative m e =>
    simp only [floor?, value?, Option.map_some, Option.some.injEq]
    generalize (if negative then -(m : Int) else m) = n
    split
    next he =>
      obtain ⟨k, rfl⟩ := Int.eq_ofNat_of_zero_le he
      have hwhole : (n : ℚ) * 2 ^ (k : Int) = ((n * 2 ^ k : Int) : ℚ) := by
        push_cast
        rfl
      rw [hwhole, Int.floor_intCast, Int.toNat_natCast, Nat.pow_eq]
      push_cast
      rfl
    next he =>
      have hzero : e.toNat = 0 := by omega
      rw [zpow_eq_div two_ne_zero, hzero, pow_zero, mul_one_div, Nat.pow_eq]
      have hquotient := Rat.floor_intCast_div_natCast n (2 ^ (-e).toNat)
      push_cast at hquotient ⊢
      exact hquotient.symm

/-- A form is whole if the number that it denotes is an integer. -/
theorem isWhole_iff (f : Form) : f.isWhole = true ↔ ∃ i : Int, f.value? = some (i : ℚ) := by
  cases f with
  | nan => simp [isWhole, value?]
  | infinite negative => simp [isWhole, value?]
  | finite negative m e =>
    constructor
    · intro h
      obtain ⟨n, hn, -⟩ := floor?_of_isWhole h
      refine ⟨if negative then -n else n, ?_⟩
      cases negative <;> simp [value?, hn]
    · rintro ⟨i, hi⟩
      rw [isWhole, Bool.or_eq_true, decide_eq_true_iff, beq_iff_eq, Nat.pow_eq]
      by_cases he : 0 ≤ e
      · exact .inl he
      · right
        have hzero : e.toNat = 0 := by omega
        have hp : (2 ^ (-e).toNat : ℚ) ≠ 0 := by positivity
        rw [value?, Option.some.injEq, zpow_eq_div two_ne_zero, hzero, pow_zero, mul_one_div,
          div_eq_iff hp] at hi
        have hdvd : ((2 ^ (-e).toNat : Nat) : Int) ∣ if negative then -m else m := by
          refine ⟨i, ?_⟩
          rw [mul_comm]
          exact_mod_cast hi
        apply Nat.mod_eq_zero_of_dvd
        cases negative with
        | false => exact Int.natCast_dvd_natCast.1 hdvd
        | true => exact Int.natCast_dvd_natCast.1 (Int.dvd_neg.1 hdvd)

end Form

theorem clampedFloor_eq (low high : Int) (h : value? x = some v) :
    clampedFloor low high x = max low (min high ⌊v⌋) := by
  obtain ⟨negative, m, e, hform, hv⟩ := exists_form_of_value? h
  have hfloor : (Form.finite negative m e).floor? = some ⌊v⌋ := by
    rw [Form.floor?_eq, ← hv]
    rfl
  rw [clampedFloor, hform]
  simp only [hfloor, Option.getD_some]

/-! ## Indices -/

theorem Form.value?_eq_natCast_iff :
    ((finite negative m e).isWhole && (!negative || m == 0)) = true ↔
      ∃ n : Nat, (finite negative m e).value? = some (n : ℚ) := by
  have hp : (0 : ℚ) < 2 ^ e := by positivity
  have hsign : (!negative || m == 0) = true ↔
      0 ≤ ((if negative then -m else m : Int) * 2 ^ e : ℚ) := by
    rw [mul_nonneg_iff_of_pos_right hp, Int.cast_nonneg_iff]
    cases negative <;> simp
  rw [Bool.and_eq_true, isWhole_iff, hsign, value?]
  constructor
  · rintro ⟨⟨i, hi⟩, hnonneg⟩
    rw [Option.some.inj hi] at hnonneg
    obtain ⟨n, rfl⟩ := Int.eq_ofNat_of_zero_le (Int.cast_nonneg_iff.1 hnonneg)
    exact ⟨n, hi⟩
  · rintro ⟨n, hn⟩
    rw [Option.some.inj hn]
    exact ⟨⟨n, rfl⟩, Nat.cast_nonneg n⟩

/-- A double denotes a place if it is the number of the place, and there are more places than that. -/
theorem index?_eq_some_iff {length n : Nat} :
    index? x length = some n ↔ value? x = some (n : ℚ) ∧ n < length := by
  unfold value? index?
  cases hform : form x with
  | nan => simp [Form.value?]
  | infinite => simp [Form.value?]
  | finite negative m e =>
    dsimp only
    rw [Form.floor?_eq]
    constructor
    · intro h
      split at h
      next hwhole =>
        obtain ⟨k, hk⟩ := Form.value?_eq_natCast_iff.1 hwhole
        rw [hk] at h ⊢
        simp only [Option.map_some, Option.getD_some, Int.floor_natCast, Int.toNat_natCast] at h
        split at h
        next hlt =>
          cases h
          exact ⟨rfl, hlt⟩
        next => cases h
      next => cases h
    · rintro ⟨hn, hlt⟩
      rw [if_pos (Form.value?_eq_natCast_iff.2 ⟨n, hn⟩), hn]
      simp [hlt]

/-! ## Doubles made from whole numbers -/

/-- A positive mantissa with fewer than fifty-four bits is moved to the left until it has fifty-three. -/
theorem ofFinite_zero (negative : Bool) (hpos : 0 < m) (hlt : m < 2 ^ 53) :
    ∃ k : Nat, Canonical (m * 2 ^ k) (-k) ∧
      ofFinite negative m 0 = double negative (m * 2 ^ k) (-k) := by
  have hlog : m.log2 < 53 := (Nat.log2_lt hpos.ne').2 hlt
  have hlow : 2 ^ m.log2 * 2 ^ (52 - m.log2) = 2 ^ 52 := by
    rw [← Nat.pow_add, Nat.add_sub_of_le (by omega)]
  have hhigh : 2 ^ (m.log2 + 1) * 2 ^ (52 - m.log2) = 2 ^ 53 := by
    rw [← Nat.pow_add]
    congr 1
    omega
  have hscale : 0 < 2 ^ (52 - m.log2) := by positivity
  refine ⟨52 - m.log2, ⟨?_, by omega, by omega, .inl ?_⟩, ?_⟩
  · rw [← hhigh]
    exact Nat.mul_lt_mul_of_pos_right Nat.lt_log2_self hscale
  · rw [← hlow]
    exact Nat.mul_le_mul_right _ (Nat.log2_self_le hpos.ne')
  · have hshift : min (52 - m.log2) (0 + 1074 : Int).toNat = 52 - m.log2 := by omega
    rw [ofFinite, if_neg hpos.ne', hshift, double]
    dsimp only
    rw [Nat.shiftLeft_eq m]
    congr 3
    omega

theorem signed_natAbs (i : Int) : (if decide (i < 0) then -i.natAbs else i.natAbs : Int) = i := by
  simp only [decide_eq_true_eq]
  split <;> omega

theorem value?_ofInt_of_lt {i : Int} (h : i.natAbs < 2 ^ 53) : value? (ofInt i) = some (i : ℚ) := by
  have hsmall : i.natAbs < 0x20000000000000 := h
  rw [ofInt, if_pos hsmall]
  rcases Nat.eq_zero_or_pos i.natAbs with hzero | hpos
  · obtain rfl : i = 0 := Int.natAbs_eq_zero.1 hzero
    have hc : Canonical 0 (-1074) := ⟨by decide, by decide, by decide, .inr rfl⟩
    have hvalue := value?_double hc false
    rw [if_neg (by decide), Nat.cast_zero, Int.cast_zero, zero_mul] at hvalue
    exact hvalue
  · obtain ⟨k, hc, hmade⟩ := ofFinite_zero (i < 0) hpos h
    have hsigned : (if decide (i < 0) then -(i.natAbs * 2 ^ k : Nat) else (i.natAbs * 2 ^ k : Nat) : Int) =
        i * 2 ^ k := by
      conv => rhs; rw [← signed_natAbs i]
      split <;> push_cast <;> ring
    rw [hmade, value?_double hc, hsigned, zpow_neg, zpow_natCast]
    push_cast
    field_simp

/-- A whole number that is the value of some double is made into a double with this value. -/
theorem value?_ofInt_of_value? {i : Int} (h : value? x = some (i : ℚ)) :
    value? (ofInt i) = some (i : ℚ) := by
  rcases Nat.lt_or_ge i.natAbs (2 ^ 53) with hlt | hge
  · exact value?_ofInt_of_lt hlt
  · obtain ⟨negative, m, e, hform, hv⟩ := exists_form_of_value? h
    have hc := canonical_of_form hform
    have hi : (i : ℚ) ≠ 0 := by
      rw [Int.cast_ne_zero]
      omega
    have hm : 0 < m := by
      apply Nat.pos_of_ne_zero
      rintro rfl
      apply hi
      rw [← hv]
      simp
    have hmagnitude : (0 : ℚ) < m * 2 ^ e := by positivity
    have hsign : decide (i < 0) = negative := by
      rw [Bool.eq_iff_iff, decide_eq_true_iff, ← Int.cast_lt_zero (R := ℚ), ← hv]
      cases negative with
      | false => simpa using hmagnitude.le
      | true => simpa using hmagnitude
    have habs : (i.natAbs : ℚ) = m * 2 ^ e := by
      rw [Nat.cast_natAbs, Int.cast_abs, ← hv, abs_value]
    have hlarge : ¬i.natAbs < 0x20000000000000 := Nat.not_lt.2 hge
    have hcontains : (Interval.around m e).Contains ((i.natAbs : ℚ) / (1 : Nat)) := by
      rw [Nat.cast_one, div_one, habs]
      exact Interval.contains_self hm
    rw [ofInt, if_neg hlarge, nearest_of_contains _ hc hm (by omega) Nat.one_pos hcontains,
      value?_double hc, hsign, hv]

/-- The floor of a finite double is itself the value of a double. -/
theorem value?_ofInt_floor (h : value? x = some v) : value? (ofInt ⌊v⌋) = some (⌊v⌋ : ℚ) := by
  by_cases hwhole : ∃ i : Int, v = i
  · obtain ⟨i, rfl⟩ := hwhole
    rw [Int.floor_intCast]
    exact value?_ofInt_of_value? h
  · -- What is not whole has binary places, so it is below the numbers that need rounding.
    apply value?_ofInt_of_lt
    obtain ⟨negative, m, e, hform, hv⟩ := exists_form_of_value? h
    have hm := (canonical_of_form hform).mantissa_lt
    have he : e < 0 := by
      by_contra he
      apply hwhole
      obtain ⟨k, rfl⟩ := Int.eq_ofNat_of_zero_le (Int.not_lt.1 he)
      refine ⟨(if negative then -(m : Int) else m) * 2 ^ k, ?_⟩
      rw [← hv]
      push_cast
      rfl
    have habs : |v| ≤ m := by
      have hle : (2 : ℚ) ^ e ≤ 1 := zpow_le_one_of_nonpos₀ one_le_two he.le
      rw [← hv, abs_value]
      exact mul_le_of_le_one_right (Nat.cast_nonneg m) hle
    have hlow : -(m : Int) ≤ ⌊v⌋ := by
      rw [Int.le_floor]
      push_cast
      exact (abs_le.1 habs).1
    have hhigh : ⌊v⌋ ≤ m := by
      rw [← Int.floor_natCast (R := ℚ)]
      exact Int.floor_le_floor (abs_le.1 habs).2
    omega

theorem value?_ofNat {n : Nat} (h : n ≤ 2 ^ 53) : value? (ofNat n) = some (n : ℚ) := by
  rcases Nat.lt_or_eq_of_le h with hlt | rfl
  · exact value?_ofInt_of_lt hlt
  · have hc : Canonical (2 ^ 52) 1 := ⟨by decide, by decide, by decide, .inl (by decide)⟩
    apply value?_ofInt_of_value? (x := double false (2 ^ 52) 1)
    rw [value?_double hc]
    norm_num

/-- Rounding down gives the double whose value is the floor. -/
theorem value?_floor (h : value? x = some v) : value? (floor x) = some (⌊v⌋ : ℚ) := by
  have hfloor : (form x).floor? = some ⌊v⌋ := by
    have hvalue : (form x).value? = some v := h
    rw [Form.floor?_eq, hvalue]
    rfl
  rw [floor, hfloor]
  dsimp only
  split
  next hwhole =>
    obtain ⟨i, hi⟩ := (Form.isWhole_iff _).1 hwhole
    obtain rfl : v = i := Option.some.inj (h.symm.trans hi)
    rw [Int.floor_intCast]
    exact h
  next => exact value?_ofInt_floor h

end ScriptLab.Number
