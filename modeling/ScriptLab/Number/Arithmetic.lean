import ScriptLab.Number.Form

/-!
# Exact arithmetic on doubles

Rounding to whole numbers, the remainder and the use of a double as an index, all computed on the
exact value. Sum, difference, product and quotient are those of `Float`.
-/

namespace ScriptLab.Number

namespace Form

/-- Whether the value is a whole number. -/
def isWhole : Form → Bool
  | .finite _ mantissa exponent => 0 ≤ exponent || mantissa % Nat.pow 2 (-exponent).toNat == 0
  | _ => false

/-- The largest whole number that is not above a finite value. -/
def floor? : Form → Option Int
  | .finite negative mantissa exponent =>
    let signed : Int := if negative then -mantissa else mantissa
    some (if 0 ≤ exponent then signed * Nat.pow 2 exponent.toNat
      else signed / Nat.pow 2 (-exponent).toNat)
  | _ => none

end Form

/-- Whether a double is a whole number. -/
def isWhole (x : Float) : Bool :=
  (form x).isWhole

/-- The largest whole double that is not above `x`. A whole number, an infinity and what is not a
number are their own floor, so that the sign of a zero is kept. -/
def floor (x : Float) : Float :=
  match (form x).floor? with
  | some i => if isWhole x then x else ofInt i
  | none => x

/-- The floor of `x` forced into the range from `low` to `high`; `0` for what is not a number. -/
def clampedFloor (low high : Int) (x : Float) : Int :=
  match form x with
  | .nan => 0
  | .infinite true => low
  | .infinite false => high
  | f@(.finite ..) => max low (min high (f.floor?.getD 0))

/-- The remainder of a division whose quotient is cut off toward zero. It has the sign of the
dividend, also when it is zero. -/
def remainder (x y : Float) : Float :=
  match form x, form y with
  | .finite negative m e, .finite _ n g =>
    if n = 0 then 0.0 / 0.0
    else
      let least := min e g
      let dividend := m <<< (e - least).toNat
      let divisor := n <<< (g - least).toNat
      ofFinite negative (dividend % divisor) least
  | .finite .., .infinite _ => x
  | _, _ => 0.0 / 0.0

/-- The index that a double denotes among `length` places: a whole number from `0` on and below
`length`. -/
def index? (x : Float) (length : Nat) : Option Nat :=
  match form x with
  | f@(.finite negative mantissa _) =>
    if f.isWhole && (!negative || mantissa == 0) then
      let i := (f.floor?.getD 0).toNat
      if i < length then some i else none
    else none
  | _ => none

end ScriptLab.Number
