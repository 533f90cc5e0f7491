import ScriptLab.Proofs.Number.Bits

/-!
# The sign of a double

The sign is a bit of its own: the negative of a finite double and its magnitude have the same mantissa
and exponent. This ties the operations on doubles to the form of their results.
-/

namespace ScriptLab.Number

open Float.Model (Format)
open Float.Model.UnpackedFloat (unpack unpackSign unpackExponent unpackMantissa)

/-- The bit of a sign. -/
def signBit (negative : Bool) : UInt64 :=
  if negative then 0x8000000000000000 else 0

/-! ## Bits taken apart -/

section Parts

variable (negative : Bool) {bits : UInt64}

theorem unpackMantissa_signBit :
    @unpackMantissa Format.binary64 (signBit negative ||| bits).toBitVec =
      @unpackMantissa Format.binary64 bits.toBitVec := by
  cases negative <;> simp [unpackMantissa, signBit, BitVec.extractLsb_or]

theorem unpackExponent_signBit :
    @unpackExponent Format.binary64 (signBit negative ||| bits).toBitVec =
      @unpackExponent Format.binary64 bits.toBitVec := by
  cases negative <;> simp [unpackExponent, signBit, BitVec.extractLsb_or]

theorem unpackSign_signBit (h : bits.toNat < 2 ^ 63) :
    @unpackSign Format.binary64 (signBit negative ||| bits).toBitVec =
      BitVec.ofBool negative := by
  have htop : BitVec.extractLsb 63 63 bits.toBitVec = 0#1 := by
    apply BitVec.eq_of_toNat_eq
    rw [BitVec.extractLsb_toNat, Nat.shiftRight_eq_div_pow]
    exact congrArg (· % 2) (Nat.div_eq_of_lt h)
  cases negative <;> simp [unpackSign, signBit, BitVec.extractLsb_or, htop]

/-- The other sign changes nothing but the sign of what the bits denote. -/
theorem neg_unpack_signBit (h : bits.toNat < 2 ^ 63) :
    (unpack Format.binary64 (signBit negative ||| bits).toBitVec).neg =
      unpack Format.binary64 (signBit (!negative) ||| bits).toBitVec := by
  simp only [unpack, unpackMantissa_signBit, unpackExponent_signBit, unpackSign_signBit _ h]
  split
  · split <;> cases negative <;> rfl
  · split
    · split <;> cases negative <;> rfl
    · cases negative <;> rfl

theorem abs_unpack_signBit (h : bits.toNat < 2 ^ 63) :
    (unpack Format.binary64 (signBit negative ||| bits).toBitVec).abs =
      unpack Format.binary64 (signBit false ||| bits).toBitVec := by
  simp only [unpack, unpackMantissa_signBit, unpackExponent_signBit, unpackSign_signBit _ h]
  split
  · split <;> cases negative <;> rfl
  · split
    · split <;> cases negative <;> rfl
    · cases negative <;> rfl

end Parts

/-! ## Finite doubles -/

/-- The bits of a magnitude. -/
def magnitudeBits (m : Nat) (e : Int) : UInt64 :=
  ((e + 1074).toNat <<< 52 + m).toUInt64

variable {x : Float} {negative : Bool} {m : Nat} {e : Int}

/-- The exponent of a finite double is below that of infinity. -/
theorem magnitudeBits_lt (hc : Canonical m e) : (magnitudeBits m e).toNat < 2047 * 2 ^ 52 := by
  have h1 := hc.mantissa_lt
  have h2 := hc.exponent_le
  have hnat : (magnitudeBits m e).toNat = (e + 1074).toNat <<< 52 + m :=
    UInt64.toNat_ofNat_of_lt' (by simp only [UInt64.size]; omega)
  omega

theorem double_eq_ofBits (hc : Canonical m e) (negative : Bool) :
    double negative m e = Float.ofBits (signBit negative ||| magnitudeBits m e) := by
  have hsmall : (e + 1074).toNat <<< 52 + m < 0x7ff0000000000000 := by
    have h1 := hc.mantissa_lt
    have h2 := hc.exponent_le
    omega
  rw [double, ofMagnitudeBits, Nat.min_eq_left (Nat.le_of_lt hsmall)]
  rfl

theorem toBits_double (hc : Canonical m e) (negative : Bool) :
    (double negative m e).toBits = signBit negative ||| magnitudeBits m e := by
  have hless := magnitudeBits_lt hc
  have hexponent : @unpackExponent Format.binary64 (signBit negative ||| magnitudeBits m e).toBitVec ≠
      -BitVec.ofNat _ 1 := by
    rw [unpackExponent_signBit]
    intro h
    have hnat := congrArg BitVec.toNat h
    simp [unpackExponent, BitVec.extractLsb_toNat, Nat.shiftRight_eq_div_pow] at hnat
    omega
  have hvalid : Format.binary64.Valid (signBit negative ||| magnitudeBits m e).toBitVec :=
    ⟨fun h => absurd h hexponent⟩
  rw [double_eq_ofBits hc]
  exact congrArg UInt64.ofBitVec (Float.Model.UnpackedFloat.pack_unpack_of_valid hvalid)

theorem neg_double (hc : Canonical m e) (negative : Bool) :
    -double negative m e = double (!negative) m e := by
  have hless : (magnitudeBits m e).toNat < 2 ^ 63 := by
    have h := magnitudeBits_lt hc
    omega
  have hbits : (double negative m e).toModel.toBits = _ := toBits_double hc negative
  have hneg : -double negative m e =
      ⟨.pack (unpack Format.binary64 (double negative m e).toModel.toBits.toBitVec).neg⟩ := rfl
  rw [hneg, hbits, neg_unpack_signBit negative hless, double_eq_ofBits hc]
  rfl

theorem abs_double (hc : Canonical m e) (negative : Bool) :
    (double negative m e).abs = double false m e := by
  have hless : (magnitudeBits m e).toNat < 2 ^ 63 := by
    have h := magnitudeBits_lt hc
    omega
  have hbits : (double negative m e).toModel.toBits = _ := toBits_double hc negative
  have habs : (double negative m e).abs =
      ⟨.pack (unpack Format.binary64 (double negative m e).toModel.toBits.toBitVec).abs⟩ := rfl
  rw [habs, hbits, abs_unpack_signBit negative hless, double_eq_ofBits hc]
  rfl

end ScriptLab.Number
