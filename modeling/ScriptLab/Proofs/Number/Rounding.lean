import ScriptLab.Number.Reading
import ScriptLab.Number.Shortest
import ScriptLab.Proofs.Number.Bits

/-!
# Rounding to a double

The interval around a double holds rationals that round to it. So a decimal of the interval is read as
this double.
-/

namespace ScriptLab.Number

/-! ## Powers and quotients -/

theorem zpow_eq_div {b : ℚ} (hb : b ≠ 0) (e : Int) : b ^ e = b ^ e.toNat / b ^ (-e).toNat := by
  rw [← zpow_natCast, ← zpow_natCast, ← zpow_sub₀ hb]
  congr 1
  omega

theorem two_zpow_add (e : Int) (k : Nat) : (2 : ℚ) ^ (e + k) = 2 ^ k * 2 ^ e := by
  rw [zpow_add₀ two_ne_zero, zpow_natCast, mul_comm]

theorem shifted_div (n d : Nat) (e : Int) :
    ((n <<< (-e).toNat : Nat) : ℚ) / (d <<< e.toNat : Nat) = n / d / 2 ^ e := by
  rw [zpow_eq_div two_ne_zero, Nat.shiftLeft_eq, Nat.shiftLeft_eq]
  push_cast
  rw [div_div_eq_mul_div, div_mul_eq_mul_div, div_div]

theorem shiftLeft_pos {d : Nat} (hd : 0 < d) (k : Nat) : 0 < d <<< k := by
  rw [Nat.shiftLeft_eq]
  positivity

theorem log2_div_bounds {n d : Nat} (hn : 0 < n) (hd : 0 < d) :
    (2 : ℚ) ^ ((n.log2 : Int) - d.log2 - 1) ≤ n / d ∧
      (n / d : ℚ) < 2 ^ ((n.log2 : Int) - d.log2 + 1) := by
  have hn1 : ((2 ^ n.log2 : Nat) : ℚ) ≤ n := Nat.cast_le.2 (Nat.log2_self_le hn.ne')
  have hn2 : (n : ℚ) < (2 ^ (n.log2 + 1) : Nat) := Nat.cast_lt.2 Nat.lt_log2_self
  have hd1 : ((2 ^ d.log2 : Nat) : ℚ) ≤ d := Nat.cast_le.2 (Nat.log2_self_le hd.ne')
  have hd2 : (d : ℚ) < (2 ^ (d.log2 + 1) : Nat) := Nat.cast_lt.2 Nat.lt_log2_self
  have hdq : (0 : ℚ) < d := Nat.cast_pos.2 hd
  push_cast at hn1 hn2 hd1 hd2
  constructor
  · rw [le_div_iff₀ hdq]
    calc (2 : ℚ) ^ ((n.log2 : Int) - d.log2 - 1) * d
        ≤ 2 ^ ((n.log2 : Int) - d.log2 - 1) * 2 ^ (d.log2 + 1) := by gcongr
      _ = 2 ^ n.log2 := by
        rw [← zpow_natCast, ← zpow_natCast, ← zpow_add₀ two_ne_zero]
        congr 1
        omega
      _ ≤ n := hn1
  · rw [div_lt_iff₀ hdq]
    calc (n : ℚ) < 2 ^ (n.log2 + 1) := hn2
      _ = 2 ^ ((n.log2 : Int) - d.log2 + 1) * 2 ^ d.log2 := by
        rw [← zpow_natCast, ← zpow_natCast, ← zpow_add₀ two_ne_zero]
        congr 1
        omega
      _ ≤ 2 ^ ((n.log2 : Int) - d.log2 + 1) * d := by gcongr

/-! ## Rounding a quotient -/

/-- The whole number nearest to a quotient; of two equally near ones the even one. -/
def halfEven (n d : Nat) : Nat :=
  if d < 2 * (n % d) || (2 * (n % d) = d && n / d % 2 = 1) then n / d + 1 else n / d

variable {n d m : Nat} {e : Int}

theorem halfEven_eq (hd : 0 < d) (hlow : (2 * m) * d ≤ 2 * n + d) (hhigh : 2 * n ≤ (2 * m + 1) * d)
    (hodd : m % 2 = 1 → (2 * m) * d < 2 * n + d ∧ 2 * n < (2 * m + 1) * d) : halfEven n d = m := by
  unfold halfEven
  have hn : d * (n / d) + n % d = n := Nat.div_add_mod n d
  have hr : n % d < d := Nat.mod_lt n hd
  generalize n / d = q at *
  generalize n % d = r at *
  subst hn
  rcases Nat.lt_trichotomy q m with h | h | h
  · have hq : m = q + 1 := by
      by_contra hne
      have h3 : d * (q + 2) ≤ d * m := Nat.mul_le_mul_left d (by omega)
      linarith
    subst hq
    have hge : d ≤ 2 * r := by linarith
    have htie : 2 * r = d → q % 2 = 1 := by
      intro htie
      by_contra heven
      have := (hodd (by omega)).1
      linarith
    simp only [Bool.or_eq_true, Bool.and_eq_true, decide_eq_true_eq]
    rw [if_pos (by omega)]
  · subst h
    have hle : 2 * r ≤ d := by linarith
    have htie : 2 * r = d → q % 2 ≠ 1 := by
      intro htie hq
      have := (hodd hq).2
      linarith
    simp only [Bool.or_eq_true, Bool.and_eq_true, decide_eq_true_eq]
    rw [if_neg (by omega)]
  · have h3 : d * (m + 1) ≤ d * q := Nat.mul_le_mul_left d h
    linarith

theorem halfEven_eq_of_near (hd : 0 < d) (hlow : (m - 1 / 2 : ℚ) ≤ n / d)
    (hhigh : (n / d : ℚ) ≤ m + 1 / 2)
    (hodd : m % 2 = 1 → (m - 1 / 2 : ℚ) < n / d ∧ (n / d : ℚ) < m + 1 / 2) : halfEven n d = m := by
  have hdq : (0 : ℚ) < d := Nat.cast_pos.2 hd
  rw [le_div_iff₀ hdq] at hlow
  rw [div_le_iff₀ hdq] at hhigh
  apply halfEven_eq hd
  · rw [← Nat.cast_le (α := ℚ)]
    push_cast
    linarith
  · rw [← Nat.cast_le (α := ℚ)]
    push_cast
    linarith
  · intro h
    obtain ⟨hlow, hhigh⟩ := hodd h
    rw [lt_div_iff₀ hdq] at hlow
    rw [div_lt_iff₀ hdq] at hhigh
    constructor
    · rw [← Nat.cast_lt (α := ℚ)]
      push_cast
      linarith
    · rw [← Nat.cast_lt (α := ℚ)]
      push_cast
      linarith

/-- Rounding chooses the exponent with which the mantissa has fifty-three bits, or the least one. -/
theorem nearest_eq (negative : Bool) (hn : 0 < n) (hd : 0 < d) :
    ∃ e : Int, -1074 ≤ e ∧ (n / d : ℚ) < 2 ^ (e + 53) ∧ (e = -1074 ∨ (2 : ℚ) ^ (e + 52) ≤ n / d) ∧
      nearest negative n d =
        double negative (halfEven (n <<< (-e).toNat) (d <<< e.toNat)) e := by
  obtain ⟨hlow, hhigh⟩ := log2_div_bounds hn hd
  unfold nearest
  rw [if_neg (by omega)]
  extract_lets estimate scaled narrow exponent
  have hnarrow : narrow ↔ (n / d : ℚ) < 2 ^ (estimate + 53) := by
    have hpos : (0 : ℚ) < (d <<< estimate.toNat : Nat) := Nat.cast_pos.2 (shiftLeft_pos hd _)
    have hscale : (0 : ℚ) < 2 ^ estimate := by positivity
    rw [zpow_add₀ two_ne_zero, ← div_lt_iff₀' hscale, ← shifted_div, div_lt_iff₀ hpos, mul_comm]
    change n <<< (-estimate).toNat < (d <<< estimate.toNat) <<< 53 ↔ _
    rw [Nat.shiftLeft_eq _ 53, ← Nat.cast_lt (α := ℚ), Nat.cast_mul, Nat.cast_pow]
    rfl
  have hestimate : -1074 ≤ estimate := le_max_left _ _
  by_cases hn : narrow
  · have he : exponent = estimate := if_pos hn
    refine ⟨exponent, he ▸ hestimate, he ▸ hnarrow.1 hn, ?_, rfl⟩
    rcases max_choice (-1074) ((n.log2 : Int) - d.log2 - 53) with h | h
    · exact .inl (he.trans h)
    · have hsame : estimate = (n.log2 : Int) - d.log2 - 53 := h
      exact .inr ((zpow_le_zpow_right₀ one_le_two (by omega)).trans hlow)
  · have he : exponent = estimate + 1 := if_neg hn
    refine ⟨exponent, by omega, ?_, .inr ?_, rfl⟩
    · have hle : (n.log2 : Int) - d.log2 - 53 ≤ estimate := le_max_right _ _
      exact hhigh.trans_le (zpow_le_zpow_right₀ one_le_two (by omega))
    · have hge := not_lt.1 (mt hnarrow.2 hn)
      have hsum : exponent + 52 = estimate + 53 := by omega
      rw [hsum]
      exact hge

/-! ## The interval of a double -/

namespace Interval

/-- Whether a rational number lies in the interval. -/
def Contains (i : Interval) (v : ℚ) : Prop :=
  (i.low ≤ v * i.denominator ∧ v * i.denominator ≤ i.high) ∧
    (i.closed = false → i.low < v * i.denominator ∧ v * i.denominator < i.high)

theorem holds_iff {i : Interval} : i.holds n = true ↔ i.Contains n := by
  unfold holds Contains
  rw [← Nat.cast_mul, Nat.cast_le, Nat.cast_le, Nat.cast_lt, Nat.cast_lt]
  cases i.closed with
  | true => simp
  | false =>
    simp
    omega

/-- How many quarters of the last binary place below a double its interval begins. -/
def below (mantissa : Nat) (exponent : Int) : Nat :=
  if mantissa = 4503599627370496 && exponent != -1074 then 1 else 2

theorem below_le (m : Nat) (e : Int) : (below m e : ℚ) ≤ 2 := by
  unfold below
  split <;> norm_num

theorem denominator_pos (m : Nat) (e : Int) : 0 < (around m e).denominator :=
  Nat.pow_pos (by decide)

theorem four_mul_scale (m : Nat) (e : Int) :
    4 * (2 ^ (e - 2).toNat : ℚ) = 2 ^ e * (around m e).denominator := by
  have hd : (around m e).denominator = 2 ^ (2 - e).toNat := rfl
  have h := zpow_eq_div (two_ne_zero (α := ℚ)) (e - 2)
  rw [neg_sub, eq_div_iff (by positivity), zpow_sub₀ two_ne_zero] at h
  rw [hd, ← h]
  push_cast
  field_simp

theorem around_low (hm : 0 < m) :
    ((around m e).low : ℚ) = (m - below m e / 4) * 2 ^ e * (around m e).denominator := by
  have hb : below m e ≤ 4 * m := by
    unfold below
    split <;> omega
  have h : (around m e).low = (4 * m - below m e) * 2 ^ (e - 2).toNat := rfl
  rw [h, mul_assoc (_ - _ : ℚ), ← four_mul_scale, Nat.cast_mul, Nat.cast_sub hb]
  push_cast
  ring

theorem around_value (m : Nat) (e : Int) :
    ((around m e).value : ℚ) = m * 2 ^ e * (around m e).denominator := by
  have h : (around m e).value = 4 * m * 2 ^ (e - 2).toNat := rfl
  rw [h, mul_assoc (m : ℚ), ← four_mul_scale]
  push_cast
  ring

theorem around_high (m : Nat) (e : Int) :
    ((around m e).high : ℚ) = (m + 1 / 2) * 2 ^ e * (around m e).denominator := by
  have h : (around m e).high = (4 * m + 2) * 2 ^ (e - 2).toNat := rfl
  rw [h, mul_assoc (_ + _ : ℚ), ← four_mul_scale]
  push_cast
  ring

theorem contains_around {v : ℚ} (hm : 0 < m) :
    (around m e).Contains v ↔
      ((m - below m e / 4) * 2 ^ e ≤ v ∧ v ≤ (m + 1 / 2) * 2 ^ e) ∧
        (m % 2 = 1 → (m - below m e / 4) * 2 ^ e < v ∧ v < (m + 1 / 2) * 2 ^ e) := by
  have hden : (0 : ℚ) < (around m e).denominator := Nat.cast_pos.2 (denominator_pos m e)
  have hclosed : (around m e).closed = false ↔ m % 2 = 1 := by
    have h : (around m e).closed = (m % 2 == 0) := rfl
    rw [h, beq_eq_false_iff_ne]
    omega
  unfold Contains
  rw [around_low hm, around_high, hclosed]
  simp only [mul_le_mul_iff_left₀ hden, mul_lt_mul_iff_left₀ hden]

theorem low_lt_value (hm : 0 < m) : (around m e).low < (around m e).value := by
  have hb : 0 < below m e := by
    unfold below
    split <;> decide
  have hscale : 0 < Nat.pow 2 (e - 2).toNat := Nat.pow_pos (by decide)
  have h : 4 * m - below m e < 4 * m := by omega
  exact Nat.mul_lt_mul_of_pos_right h hscale

theorem value_lt_high (m : Nat) (e : Int) : (around m e).value < (around m e).high :=
  Nat.mul_lt_mul_of_pos_right (by omega) (Nat.pow_pos (by decide))

theorem contains_self (hm : 0 < m) : (around m e).Contains (m * 2 ^ e) := by
  have hlow : ((around m e).low : ℚ) < (around m e).value := Nat.cast_lt.2 (low_lt_value hm)
  have hhigh : ((around m e).value : ℚ) < (around m e).high := Nat.cast_lt.2 (value_lt_high m e)
  rw [Contains, ← around_value]
  exact ⟨⟨hlow.le, hhigh.le⟩, fun _ => ⟨hlow, hhigh⟩⟩

end Interval

/-! ## What lies in the interval rounds to the double -/

section Nearest

variable {v : ℚ} {e' : Int}

theorem exponent_le_of_contains (hc : Canonical m e) (hm : 0 < m)
    (h : (Interval.around m e).Contains v) (hge : e' = -1074 ∨ (2 : ℚ) ^ (e' + 52) ≤ v) : e' ≤ e := by
  by_contra hgt
  have hv := ((Interval.contains_around hm).1 h).1.2
  have hp : (0 : ℚ) < 2 ^ e := by positivity
  have hm53 : (m : ℚ) + 1 ≤ 2 ^ 53 := by exact_mod_cast hc.mantissa_lt
  have hmin := hc.exponent_ge
  have h1 : (2 : ℚ) ^ (e' + 52) ≤ v := hge.resolve_left (by omega)
  have h2 : (2 : ℚ) ^ (e + (53 : Nat)) ≤ 2 ^ (e' + 52) := zpow_le_zpow_right₀ one_le_two (by omega)
  rw [two_zpow_add] at h2
  nlinarith

/-- Only below a power of two does the interval reach to where the doubles lie closer. -/
theorem power_of_contains (hc : Canonical m e) (hm : 0 < m) (h : (Interval.around m e).Contains v)
    (hlt : v < 2 ^ (e' + 53)) (he : -1074 ≤ e') (hne : e' < e) :
    m = 2 ^ 52 ∧ e = e' + 1 ∧ (2 ^ 53 - 1 / 2) * 2 ^ e' ≤ v := by
  have hlow := ((Interval.contains_around hm).1 h).1.1
  have hp : (0 : ℚ) < 2 ^ e := by positivity
  have hbottom : e ≠ -1074 := by omega
  have hstep : (2 : ℚ) ^ (e' + 53) ≤ 2 ^ (e + (52 : Nat)) :=
    zpow_le_zpow_right₀ one_le_two (by omega)
  rw [two_zpow_add] at hstep
  have hm52 : m = 2 ^ 52 := by
    by_contra hne
    have hbelow : Interval.below m e = 2 := by
      have : m ≠ 4503599627370496 := hne
      simp [Interval.below, this]
    have hge52 : (2 ^ 52 + 1 : ℚ) ≤ m := by
      have := hc.normal.resolve_right hbottom
      exact_mod_cast (show 2 ^ 52 + 1 ≤ m by omega)
    rw [hbelow] at hlow
    nlinarith
  have hbelow : Interval.below m e = 1 := by
    subst hm52
    simp [Interval.below, hbottom]
  rw [hbelow, hm52] at hlow
  have hpred : e = e' + 1 := by
    by_contra hne
    have h1 : (2 : ℚ) ^ (e' + 53) ≤ 2 ^ (e + (51 : Nat)) :=
      zpow_le_zpow_right₀ one_le_two (by omega)
    rw [two_zpow_add] at h1
    norm_num at hlow h1
    nlinarith
  refine ⟨hm52, hpred, ?_⟩
  have hhalf : (2 : ℚ) ^ e = 2 ^ 1 * 2 ^ e' := by
    rw [hpred]
    exact two_zpow_add e' 1
  rw [hhalf] at hlow
  norm_num at hlow ⊢
  linarith

theorem halfEven_of_contains (hd : 0 < d) (hm : 0 < m)
    (h : (Interval.around m e).Contains (n / d)) :
    halfEven (n <<< (-e).toNat) (d <<< e.toNat) = m := by
  obtain ⟨⟨hlow, hhigh⟩, hodd⟩ := (Interval.contains_around hm).1 h
  have hp : (0 : ℚ) < 2 ^ e := by positivity
  have hb := Interval.below_le m e
  have hfar : (m - 1 / 2 : ℚ) * 2 ^ e ≤ (m - Interval.below m e / 4) * 2 ^ e :=
    mul_le_mul_of_nonneg_right (by linarith) hp.le
  apply halfEven_eq_of_near (shiftLeft_pos hd _)
  · rw [shifted_div, le_div_iff₀ hp]
    exact hfar.trans hlow
  · rw [shifted_div, div_le_iff₀ hp]
    exact hhigh
  · intro hm2
    rw [shifted_div, lt_div_iff₀ hp, div_lt_iff₀ hp]
    obtain ⟨h1, h2⟩ := hodd hm2
    exact ⟨hfar.trans_lt h1, h2⟩

theorem halfEven_below_power (hd : 0 < d) (hlow : (2 ^ 53 - 1 / 2 : ℚ) * 2 ^ e ≤ n / d)
    (hlt : (n / d : ℚ) < 2 ^ (e + 53)) :
    halfEven (n <<< (-e).toNat) (d <<< e.toNat) = 2 ^ 53 := by
  have hp : (0 : ℚ) < 2 ^ e := by positivity
  have htop : (2 : ℚ) ^ (e + 53) = 2 ^ 53 * 2 ^ e := two_zpow_add e 53
  apply halfEven_eq_of_near (shiftLeft_pos hd _)
  · rw [shifted_div, le_div_iff₀ hp]
    exact_mod_cast hlow
  · rw [shifted_div, div_le_iff₀ hp]
    push_cast
    linarith
  · intro hodd
    exact absurd hodd (by decide)

/-- A rational in the interval of a double rounds to this double. -/
theorem nearest_of_contains (negative : Bool) (hc : Canonical m e) (hm : 0 < m) (hn : 0 < n)
    (hd : 0 < d) (h : (Interval.around m e).Contains (n / d)) :
    nearest negative n d = double negative m e := by
  obtain ⟨e', he', hlt, hge, hnear⟩ := nearest_eq negative hn hd
  have hle := exponent_le_of_contains hc hm h hge
  rw [hnear]
  by_cases heq : e' = e
  · subst heq
    rw [halfEven_of_contains hd hm h]
  · obtain ⟨hm52, hpred, hlow⟩ := power_of_contains hc hm h hlt he' (by omega)
    rw [halfEven_below_power hd hlow hlt, hm52]
    have hplace : (e' + 1074).toNat <<< 52 + 2 ^ 53 = (e + 1074).toNat <<< 52 + 2 ^ 52 := by
      rw [Nat.shiftLeft_eq, Nat.shiftLeft_eq]
      omega
    exact congrArg (ofMagnitudeBits negative) hplace

end Nearest

/-! ## Reading a decimal of the interval -/

/-- Ninety-three doublings make less than twenty-eight decimal digits. -/
theorem two_pow_lt_ten_pow {k : Nat} (hk : k ≠ 0) : 2 ^ (93 * k) < 10 ^ (28 * k) := by
  rw [pow_mul, pow_mul]
  exact pow_lt_pow_left₀ (by norm_num) (by decide) hk

theorem lt_of_contains {v : ℚ} (hc : Canonical m e) (hm : 0 < m)
    (h : (Interval.around m e).Contains v) : v < 10 ^ (310 : Int) := by
  have hv := ((Interval.contains_around hm).1 h).1.2
  have hm53 : (m : ℚ) + 1 / 2 ≤ 2 ^ 53 := by
    have : (m : ℚ) + 1 ≤ 2 ^ 53 := by exact_mod_cast hc.mantissa_lt
    linarith
  calc v ≤ (m + 1 / 2) * 2 ^ e := hv
    _ ≤ 2 ^ 53 * 2 ^ (971 : Int) := by
      gcongr
      · exact one_le_two
      · exact hc.exponent_le
    _ < 10 ^ (310 : Int) := by
      have h : 2 ^ 53 * 2 ^ 971 < 10 ^ 310 := by
        calc 2 ^ 53 * 2 ^ 971 = 2 ^ (93 * 11) * 2 := by rw [← pow_add, ← pow_succ]
          _ < 10 ^ (28 * 11) * 10 ^ 2 :=
            Nat.mul_lt_mul'' (two_pow_lt_ten_pow (by decide)) (by decide)
          _ = 10 ^ 310 := by rw [← pow_add]
      exact_mod_cast h

theorem gt_of_contains {v : ℚ} (hc : Canonical m e) (hm : 0 < m)
    (h : (Interval.around m e).Contains v) : 10 ^ (-401 : Int) < v := by
  have hv := ((Interval.contains_around hm).1 h).1.1
  have hb := Interval.below_le m e
  have hm1 : (1 : ℚ) ≤ m := by exact_mod_cast hm
  calc (10 : ℚ) ^ (-401 : Int) < 2 ^ (-1075 : Int) := by
        rw [zpow_neg, zpow_neg]
        have h : 2 ^ 1075 < 10 ^ 401 := by
          calc 2 ^ 1075 < 2 ^ (93 * 12) := pow_lt_pow_right₀ (by decide) (by decide)
            _ < 10 ^ (28 * 12) := two_pow_lt_ten_pow (by decide)
            _ < 10 ^ 401 := pow_lt_pow_right₀ (by decide) (by decide)
        exact inv_strictAnti₀ (by positivity) (by exact_mod_cast h)
    _ = 1 / 2 * 2 ^ (-1074 : Int) := by
        rw [show (-1074 : Int) = -1075 + (1 : Nat) by rfl, two_zpow_add]
        ring
    _ ≤ (m - Interval.below m e / 4) * 2 ^ e := by
      gcongr
      · linarith
      · linarith
      · exact one_le_two
      · exact hc.exponent_ge
    _ ≤ v := hv

/-- A decimal in the interval of a double is read as this double. -/
theorem ofDecimal_of_contains {k : Int} (negative : Bool) (hc : Canonical m e) (hm : 0 < m)
    (hn : 0 < n) (h : (Interval.around m e).Contains (n * 10 ^ k)) :
    ofDecimal negative n k = double negative m e := by
  have hten : (10 : ℚ) ≠ 0 := by norm_num
  have hone : (1 : ℚ) ≤ 10 := by norm_num
  have hn1 : (1 : ℚ) ≤ n := by exact_mod_cast hn
  have hp : (0 : ℚ) < 10 ^ k := by positivity
  have hhuge : ¬ 310 ≤ k := by
    intro hk
    have h1 := lt_of_contains hc hm h
    have h2 : (10 : ℚ) ^ (310 : Int) ≤ 10 ^ k := zpow_le_zpow_right₀ hone hk
    exact absurd (h2.trans (le_mul_of_one_le_left hp.le hn1)) (not_le.2 h1)
  have htiny : ¬ k + (n.log2 + 1) < -400 := by
    intro hk
    have h1 := gt_of_contains hc hm h
    have h2 : (n : ℚ) < 10 ^ (n.log2 + 1) := by
      have h3 : (n : ℚ) < (2 ^ (n.log2 + 1) : Nat) := Nat.cast_lt.2 Nat.lt_log2_self
      push_cast at h3
      exact h3.trans_le (pow_le_pow_left₀ (by norm_num) (by norm_num) _)
    have h4 : (n * 10 ^ k : ℚ) < 10 ^ (-401 : Int) :=
      calc (n * 10 ^ k : ℚ) < 10 ^ (n.log2 + 1) * 10 ^ k := mul_lt_mul_of_pos_right h2 hp
        _ = 10 ^ ((n.log2 + 1 : Nat) + k) := by rw [zpow_add₀ hten, zpow_natCast]
        _ ≤ 10 ^ (-401 : Int) := zpow_le_zpow_right₀ hone (by omega)
    exact absurd h4 (not_lt.2 h1.le)
  unfold ofDecimal
  rw [if_neg hn.ne', if_neg hhuge, if_neg htiny]
  have hpow (j : Nat) : 0 < Nat.pow 10 j := Nat.pow_pos (by decide)
  apply nearest_of_contains negative hc hm (Nat.mul_pos hn (hpow _)) (hpow _)
  rw [zpow_eq_div hten] at h
  rw [Nat.pow_eq, Nat.pow_eq, Nat.cast_mul, Nat.cast_pow, Nat.cast_pow, mul_div_assoc]
  exact h

end ScriptLab.Number
