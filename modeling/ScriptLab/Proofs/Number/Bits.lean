import Mathlib
import ScriptLab.Number.Form

/-!
# Doubles and their bits

The form of a finite double determines it: its bits are those of the sign, and the sum of the place of
the exponent and the mantissa.
-/

namespace ScriptLab.Number

/-- The mantissas and exponents of doubles. A mantissa is a small one at the bottom of the range only. -/
structure Canonical (mantissa : Nat) (exponent : Int) : Prop where
  mantissa_lt : mantissa < 2 ^ 53
  exponent_ge : -1074 ≤ exponent
  exponent_le : exponent ≤ 971
  normal : 2 ^ 52 ≤ mantissa ∨ exponent = -1074

/-- The double with a given canonical form. -/
def double (negative : Bool) (mantissa : Nat) (exponent : Int) : Float :=
  ofMagnitudeBits negative ((exponent + 1074).toNat <<< 52 + mantissa)

variable {x : Float} {negative : Bool} {m : Nat} {e : Int}

/-- The form of a double, read off its bits as one number. -/
theorem form_eq (x : Float) :
    form x =
      if x.toBits.toNat / 2 ^ 52 % 2 ^ 11 = 0x7ff then
        if x.toBits.toNat % 2 ^ 52 = 0 then .infinite (decide (2 ^ 63 ≤ x.toBits.toNat)) else .nan
      else if x.toBits.toNat / 2 ^ 52 % 2 ^ 11 = 0 then
        .finite (decide (2 ^ 63 ≤ x.toBits.toNat)) (x.toBits.toNat % 2 ^ 52) (-1074)
      else
        .finite (decide (2 ^ 63 ≤ x.toBits.toNat)) (x.toBits.toNat % 2 ^ 52 + 0x10000000000000)
          ((x.toBits.toNat / 2 ^ 52 % 2 ^ 11 : Nat) - 1075 : Int) := by
  have hx := x.toBits.toNat_lt
  have hbiased : (x.toBits >>> 52 &&& 0x7ff).toNat = x.toBits.toNat / 2 ^ 52 % 2 ^ 11 := by
    rw [UInt64.toNat_and, UInt64.toNat_shiftRight, Nat.shiftRight_eq_div_pow]
    exact Nat.and_two_pow_sub_one_eq_mod _ 11
  have hfraction : (x.toBits &&& 0xfffffffffffff).toNat = x.toBits.toNat % 2 ^ 52 := by
    rw [UInt64.toNat_and]
    exact Nat.and_two_pow_sub_one_eq_mod _ 52
  have hsign : (x.toBits >>> 63 != 0) = decide (2 ^ 63 ≤ x.toBits.toNat) := by
    have htop : (x.toBits >>> 63).toNat = x.toBits.toNat / 2 ^ 63 := by
      rw [UInt64.toNat_shiftRight, Nat.shiftRight_eq_div_pow]
      rfl
    rw [Bool.eq_iff_iff, bne_iff_ne, decide_eq_true_iff, ne_eq, ← UInt64.toNat_inj, htop]
    simp only [UInt64.toNat_zero]
    omega
  simp only [form, hbiased, hfraction, hsign]

theorem form_eq_finite (h : form x = .finite negative m e) :
    Canonical m e ∧
      x.toBits.toNat = (if negative then 2 ^ 63 else 0) + ((e + 1074).toNat * 2 ^ 52 + m) := by
  have hx := x.toBits.toNat_lt
  rw [form_eq] at h
  split at h
  next => split at h <;> cases h
  next =>
    split at h
    next =>
      cases h
      refine ⟨⟨by omega, by omega, by omega, .inr rfl⟩, ?_⟩
      simp only [decide_eq_true_eq]
      split <;> omega
    next =>
      cases h
      refine ⟨⟨by omega, by omega, by omega, .inl (by omega)⟩, ?_⟩
      simp only [decide_eq_true_eq]
      split <;> omega

theorem canonical_of_form (h : form x = .finite negative m e) : Canonical m e :=
  (form_eq_finite h).1

/-- A finite double is the double with its form. -/
theorem eq_double (h : form x = .finite negative m e) : x = double negative m e := by
  obtain ⟨hc, hx⟩ := form_eq_finite h
  have hsmall : (e + 1074).toNat <<< 52 + m < 0x7ff0000000000000 := by
    have h1 := hc.mantissa_lt
    have h2 := hc.exponent_le
    omega
  have hnat : ((e + 1074).toNat <<< 52 + m).toUInt64.toNat = (e + 1074).toNat <<< 52 + m :=
    UInt64.toNat_ofNat_of_lt' (by simp only [UInt64.size]; omega)
  rw [← Float.ofBits_toBits x, double, ofMagnitudeBits, Nat.min_eq_left (Nat.le_of_lt hsmall)]
  apply congrArg Float.ofBits
  apply UInt64.toNat.inj
  rw [hx, UInt64.toNat_or, hnat, ← Nat.shiftLeft_eq]
  cases negative with
  | false => exact (Nat.zero_add _).trans (Nat.zero_or _).symm
  | true => exact Nat.two_pow_add_eq_or_of_lt (i := 63) (by omega) 1

end ScriptLab.Number
