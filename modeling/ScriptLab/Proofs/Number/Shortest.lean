import ScriptLab.Proofs.Number.Rounding

/-!
# The shortest decimal reads back

The search for the shortest decimal of a double ends in the interval of the double. The grid of the last
attempt is finer than the interval is wide, because the estimate of the magnitude is never too large.
-/

namespace ScriptLab.Number

variable {n m : Nat} {e k : Int} {v : ℚ}

/-! ## Values of decimals -/

/-- The rational number that a decimal denotes. -/
def Decimal.value (d : Decimal) : ℚ :=
  d.digits * 10 ^ d.exponent

theorem Decimal.value_trim (n : Nat) (d : Decimal) : (d.trim n).value = d.value := by
  induction n generalizing d with
  | zero => rfl
  | succ n ih =>
    unfold trim
    split
    next h =>
      have hd : d.digits = d.digits / 10 * 10 := by omega
      rw [ih, value, value]
      conv => rhs; rw [hd]
      rw [zpow_add₀ (by norm_num), zpow_one]
      push_cast
      ring
    next => rfl

namespace Interval

variable {i : Interval} {tie : Tie}

/-! ## The grids of the search -/

theorem scaled_contains : (i.scaled k).Contains v ↔ i.Contains (v * 10 ^ k) := by
  have hfactor : (0 : ℚ) < 10 ^ (-k).toNat := by positivity
  have hden : v * (i.scaled k).denominator = v * 10 ^ k * i.denominator * 10 ^ (-k).toNat := by
    have h : (i.scaled k).denominator = i.denominator * 10 ^ k.toNat := rfl
    rw [h, zpow_eq_div (by norm_num)]
    push_cast
    field_simp
  have hlow : ((i.scaled k).low : ℚ) = i.low * 10 ^ (-k).toNat := Nat.cast_mul .. |>.trans (by simp)
  have hhigh : ((i.scaled k).high : ℚ) = i.high * 10 ^ (-k).toNat :=
    Nat.cast_mul .. |>.trans (by simp)
  have hclosed : (i.scaled k).closed = i.closed := rfl
  unfold Contains
  rw [hden, hlow, hhigh, hclosed]
  simp only [mul_le_mul_iff_left₀ hfactor, mul_lt_mul_iff_left₀ hfactor]

theorem holds_of_whole? (h : i.whole? tie = some n) : i.holds n = true := by
  simp only [whole?] at h
  split at h
  next h1 h2 =>
    have hchoice (above : Bool) :
        i.holds (if above then i.value / i.denominator + 1 else i.value / i.denominator) = true := by
      cases above
      · exact h1
      · exact h2
    rw [← Option.some.inj h]
    exact hchoice _
  next h1 h2 =>
    rw [← Option.some.inj h]
    exact h1
  next h1 h2 =>
    rw [← Option.some.inj h]
    exact h2
  next => cases h

/-- An interval wider than the grid has a whole number beside its value. -/
theorem whole?_ne_none (hd : 0 < i.denominator) (hlow : i.low < i.value) (hhigh : i.value < i.high)
    (hwide : i.low + i.denominator < i.high) : i.whole? tie ≠ none := by
  have hq : i.denominator * (i.value / i.denominator) + i.value % i.denominator = i.value :=
    Nat.div_add_mod ..
  have hr := Nat.mod_lt i.value hd
  have hheld : i.holds (i.value / i.denominator) = true ∨
      i.holds (i.value / i.denominator + 1) = true := by
    unfold holds
    rw [Nat.add_mul, Nat.one_mul, Nat.mul_comm]
    generalize i.denominator * (i.value / i.denominator) = x at *
    split
    · simp only [Bool.and_eq_true, decide_eq_true_eq]
      omega
    · simp only [Bool.and_eq_true, decide_eq_true_eq]
      omega
  unfold whole?
  extract_lets q twice
  rcases hheld with h | h
  · rw [show i.holds q = true from h]
    split <;> simp_all
  · rw [show i.holds (q + 1) = true from h]
    split <;> simp_all

theorem search_contains (h : ∃ j < n, (i.scaled (k - j)).whole? tie ≠ none) :
    i.Contains (i.search tie n k).value := by
  induction n generalizing k with
  | zero =>
    obtain ⟨j, hj, -⟩ := h
    omega
  | succ n ih =>
    unfold search
    split
    next digits heq => exact scaled_contains.1 (holds_iff.1 (holds_of_whole? heq))
    next heq =>
      apply ih
      obtain ⟨j, hj, hsome⟩ := h
      cases j with
      | zero =>
        rw [Int.natCast_zero, Int.sub_zero] at hsome
        exact absurd heq hsome
      | succ j =>
        refine ⟨j, by omega, ?_⟩
        rw [show k - 1 - (j : Int) = k - ((j + 1 : Nat) : Int) by omega]
        exact hsome

/-- The magnitude found is at most one above that of the value. -/
theorem magnitude_le (hd : 0 < i.denominator) (h : (10 : ℚ) ^ (k - 1) ≤ i.value / i.denominator) :
    (10 : ℚ) ^ (i.magnitude n k - 1) ≤ i.value / i.denominator := by
  induction n generalizing k with
  | zero => exact h
  | succ n ih =>
    simp only [magnitude]
    split
    next => exact h
    next hlt =>
      apply ih
      have hfactor : (0 : ℚ) < 10 ^ (-k).toNat := by positivity
      have hdq : (0 : ℚ) < i.denominator := Nat.cast_pos.2 hd
      have hle : (((i.scaled k).denominator : Nat) : ℚ) ≤ (i.scaled k).value :=
        Nat.cast_le.2 (not_lt.1 hlt)
      have hvalue : (i.scaled k).value = i.value * 10 ^ (-k).toNat := rfl
      have hden : (i.scaled k).denominator = i.denominator * 10 ^ k.toNat := rfl
      rw [hvalue, hden] at hle
      push_cast at hle
      rw [add_sub_cancel_right, zpow_eq_div (by norm_num), div_le_div_iff₀ hfactor hdq, mul_comm]
      exact hle

end Interval

/-! ## The estimate of the magnitude -/

/-- The 256th power of two is at least `11579 * 10 ^ 73` and at most `12 * 10 ^ 76`, so that its
sixteenth power stands between two neighbouring powers of ten. -/
theorem two_pow_bounds : 10 ^ 1233 ≤ 2 ^ 4096 ∧ 2 ^ 4096 ≤ 10 ^ 1234 := by
  constructor
  · calc 10 ^ 1233 = 10 ^ 65 * (10 ^ 73) ^ 16 := by rw [← pow_mul, ← pow_add]
      _ ≤ 11579 ^ 16 * (10 ^ 73) ^ 16 := Nat.mul_le_mul_right _ (by norm_num)
      _ = (11579 * 10 ^ 73) ^ 16 := by rw [mul_pow]
      _ ≤ (2 ^ 256) ^ 16 := pow_le_pow_left₀ (by decide) (by norm_num) 16
      _ = 2 ^ 4096 := by rw [← pow_mul]
  · calc 2 ^ 4096 = (2 ^ 256) ^ 16 := by rw [← pow_mul]
      _ ≤ (12 * 10 ^ 76) ^ 16 := pow_le_pow_left₀ (by decide) (by norm_num) 16
      _ = 12 ^ 16 * (10 ^ 76) ^ 16 := by rw [mul_pow]
      _ ≤ 10 ^ 18 * (10 ^ 76) ^ 16 := Nat.mul_le_mul_right _ (by norm_num)
      _ = 10 ^ 1234 := by rw [← pow_mul, ← pow_add]

/-- `1233 / 4096` is so close to the logarithm of two that two below it is small enough. -/
theorem pow_estimate_le {t : Int} (hlow : -1074 ≤ t) :
    (10 : ℚ) ^ (t * 1233 / 4096 - 1 - 1) ≤ 2 ^ t := by
  have hfloor : t * 1233 / 4096 * 4096 ≤ t * 1233 := Int.ediv_mul_le _ (by decide)
  have hten : (1 : ℚ) ≤ 10 := by norm_num
  apply le_of_pow_le_pow_left₀ (n := 4096) (by decide) (by positivity)
  rw [← zpow_natCast, ← zpow_natCast, ← zpow_mul, ← zpow_mul]
  obtain ⟨s, rfl | rfl⟩ := t.eq_nat_or_neg
  · have hbase : (10 : ℚ) ^ 1233 ≤ 2 ^ 4096 := by exact_mod_cast two_pow_bounds.1
    calc (10 : ℚ) ^ (((s : Int) * 1233 / 4096 - 1 - 1) * (4096 : Nat))
        ≤ 10 ^ (((1233 * s : Nat) : Int)) := zpow_le_zpow_right₀ hten (by omega)
      _ = (10 ^ 1233) ^ s := by rw [zpow_natCast, pow_mul]
      _ ≤ (2 ^ 4096) ^ s := pow_le_pow_left₀ (by positivity) hbase s
      _ = 2 ^ ((s : Int) * (4096 : Nat)) := by
        rw [← pow_mul, ← zpow_natCast, mul_comm, Nat.cast_mul]
  · have hbase : (2 : ℚ) ^ 4096 ≤ 10 ^ 1234 := by exact_mod_cast two_pow_bounds.2
    calc (10 : ℚ) ^ ((-(s : Int) * 1233 / 4096 - 1 - 1) * (4096 : Nat))
        ≤ 10 ^ (-((1234 * s : Nat) : Int)) := zpow_le_zpow_right₀ hten (by omega)
      _ = ((10 ^ 1234) ^ s)⁻¹ := by rw [zpow_neg, zpow_natCast, pow_mul]
      _ ≤ ((2 ^ 4096) ^ s)⁻¹ :=
        inv_anti₀ (by positivity) (pow_le_pow_left₀ (by positivity) hbase s)
      _ = 2 ^ (-(s : Int) * (4096 : Nat)) := by
        rw [← pow_mul, ← zpow_natCast, ← zpow_neg, mul_comm, Nat.cast_mul, neg_mul]

/-! ## The shortest decimal -/

theorem pow_log2_le (hm : 0 < m) : (2 : ℚ) ^ ((m.log2 : Int) + e) ≤ m * 2 ^ e := by
  have h : ((2 ^ m.log2 : Nat) : ℚ) ≤ m := Nat.cast_le.2 (Nat.log2_self_le hm.ne')
  rw [zpow_add₀ two_ne_zero, zpow_natCast]
  push_cast at h
  gcongr

theorem magnitude_around_le (hc : Canonical m e) (hm : 0 < m) :
    (10 : ℚ) ^ ((Interval.around m e).magnitude 4 (((m.log2 : Int) + e) * 1233 / 4096 - 1) - 1) ≤
      m * 2 ^ e := by
  have hd := Interval.denominator_pos m e
  have hdq : (0 : ℚ) < (Interval.around m e).denominator := Nat.cast_pos.2 hd
  have hvalue : ((Interval.around m e).value : ℚ) / (Interval.around m e).denominator =
      m * 2 ^ e := by
    rw [Interval.around_value, mul_div_cancel_right₀ _ hdq.ne']
  have hmin := hc.exponent_ge
  rw [← hvalue]
  apply Interval.magnitude_le hd
  rw [hvalue]
  exact (pow_estimate_le (by omega)).trans (pow_log2_le hm)

/-- The seventeenth digit of a double stands for less than the width of its interval. -/
theorem grid_lt_width (hc : Canonical m e) (h : (10 : ℚ) ^ k ≤ m * 2 ^ e) :
    (10 : ℚ) ^ (k - 16) < (2 + Interval.below m e) / 4 * 2 ^ e := by
  have hp : (0 : ℚ) < 2 ^ e := by positivity
  have hm53 : (m : ℚ) + 1 ≤ 2 ^ 53 := by exact_mod_cast hc.mantissa_lt
  have hgrid : (10 : ℚ) ^ (k - 16) ≤ m / 10 ^ 16 * 2 ^ e := by
    rw [zpow_sub₀ (by norm_num), div_mul_eq_mul_div]
    norm_num at h ⊢
    linarith
  apply hgrid.trans_lt
  apply mul_lt_mul_of_pos_right _ hp
  unfold Interval.below
  split
  next h52 =>
    rw [Bool.and_eq_true, decide_eq_true_iff] at h52
    rw [h52.1]
    norm_num
  next =>
    norm_num at hm53 ⊢
    linarith

theorem whole?_around {tie : Tie} (hm : 0 < m)
    (h : (10 : ℚ) ^ k < (2 + Interval.below m e) / 4 * 2 ^ e) :
    ((Interval.around m e).scaled k).whole? tie ≠ none := by
  have hfactor : 0 < Nat.pow 10 (-k).toNat := Nat.pow_pos (by decide)
  have hd := Interval.denominator_pos m e
  apply Interval.whole?_ne_none
  · exact Nat.mul_pos hd (Nat.pow_pos (by decide))
  · exact Nat.mul_lt_mul_of_pos_right (Interval.low_lt_value hm) hfactor
  · exact Nat.mul_lt_mul_of_pos_right (Interval.value_lt_high m e) hfactor
  · change (Interval.around m e).low * 10 ^ (-k).toNat +
      (Interval.around m e).denominator * 10 ^ k.toNat < (Interval.around m e).high * 10 ^ (-k).toNat
    have hfq : (0 : ℚ) < 10 ^ (-k).toNat := by positivity
    have hdq : (0 : ℚ) < (Interval.around m e).denominator := Nat.cast_pos.2 hd
    rw [zpow_eq_div (by norm_num), div_lt_iff₀ hfq, ← mul_lt_mul_iff_left₀ hdq] at h
    rw [← Nat.cast_lt (α := ℚ)]
    push_cast
    rw [Interval.around_low hm, Interval.around_high]
    linarith

/-- The shortest decimal of a double lies in the interval of the double. -/
theorem shortest_contains (tie : Tie) (hc : Canonical m e) (hm : 0 < m) :
    (Interval.around m e).Contains (shortest tie m e).value := by
  unfold shortest
  rw [Decimal.value_trim]
  apply Interval.search_contains
  exact ⟨16, by decide, whole?_around hm (grid_lt_width hc (magnitude_around_le hc hm))⟩

end ScriptLab.Number
