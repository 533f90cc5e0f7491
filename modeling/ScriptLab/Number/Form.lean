/-!
# The value of a double

A double is not a number, an infinity, or `± mantissa · 2 ^ exponent`. The form is read off the
bits and written back to them; every exact computation of the library works on it.
-/

namespace ScriptLab.Number

/-- What the bits of a double denote. -/
inductive Form where
  | nan
  | infinite (negative : Bool)
  | finite (negative : Bool) (mantissa : Nat) (exponent : Int)
deriving DecidableEq

/-- The form of a double. A finite one has a mantissa below `2 ^ 53` and an exponent from `-1074`
to `971`. -/
def form (x : Float) : Form :=
  let bits := x.toBits
  let negative := bits >>> 63 != 0
  let biased := ((bits >>> 52) &&& 0x7ff).toNat
  let fraction := (bits &&& 0xfffffffffffff).toNat
  if biased = 0x7ff then
    if fraction = 0 then .infinite negative else .nan
  else if biased = 0 then .finite negative fraction (-1074)
  else .finite negative (fraction + 0x10000000000000) ((biased : Int) - 1075)

/-- The double with the given sign bit and the given bits for exponent and fraction. A magnitude at
or above that of infinity stands for infinity. -/
def ofMagnitudeBits (negative : Bool) (bits : Nat) : Float :=
  let magnitude := min bits 0x7ff0000000000000
  Float.ofBits ((if negative then 0x8000000000000000 else 0) ||| magnitude.toUInt64)

/-- The double `± mantissa · 2 ^ exponent`, for a mantissa below `2 ^ 53` and an exponent from
`-1074` on. The mantissa is shifted to the left as far as the two bounds let it, which is the form
in which the bits of the exponent and those of the fraction add up. -/
def ofFinite (negative : Bool) (mantissa : Nat) (exponent : Int) : Float :=
  if mantissa = 0 then ofMagnitudeBits negative 0
  else
    let shift := min (52 - mantissa.log2) (exponent + 1074).toNat
    let place := (exponent + 1074).toNat - shift
    ofMagnitudeBits negative (place <<< 52 + mantissa <<< shift)

/-- The double nearest to `numerator / denominator`; of two equally near ones that with the even
mantissa. Values beyond the largest finite double give infinity. -/
def nearest (negative : Bool) (numerator denominator : Nat) : Float :=
  if numerator = 0 then ofMagnitudeBits negative 0
  else
    -- With this exponent the mantissa has 53 bits or 54; in the second case it is one too small.
    let estimate := max (-1074) ((numerator.log2 : Int) - denominator.log2 - 53)
    let scaled (exponent : Int) : Nat × Nat :=
      (numerator <<< (-exponent).toNat, denominator <<< exponent.toNat)
    let narrow := (scaled estimate).1 < (scaled estimate).2 <<< 53
    let exponent := if narrow then estimate else estimate + 1
    let (n, d) := scaled exponent
    let quotient := n / d
    let twice := 2 * (n % d)
    let rounded := if d < twice || (twice = d && quotient % 2 = 1) then quotient + 1 else quotient
    ofMagnitudeBits negative ((exponent + 1074).toNat <<< 52 + rounded)

/-- The double nearest to a whole number. -/
def ofInt (i : Int) : Float :=
  if i.natAbs < 0x20000000000000 then ofFinite (i < 0) i.natAbs 0
  else nearest (i < 0) i.natAbs 1

/-- The double nearest to a natural number. -/
def ofNat (n : Nat) : Float :=
  ofInt n

end ScriptLab.Number
