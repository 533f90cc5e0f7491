/-!
# Shortest decimals

The decimal with the fewest digits among those that round to a given positive double; of several
with that many digits the one nearest to it. The search compares exact whole numbers: the value and
the two ends of the interval of reals that round to it, all in quarters of the last binary place.
-/

namespace ScriptLab.Number

/-- Which of two equally near decimals is chosen. -/
inductive Tie where
  | up
  | even
deriving DecidableEq

/-- The decimal `digits · 10 ^ exponent`. -/
structure Decimal where
  digits : Nat
  exponent : Int
deriving DecidableEq

namespace Decimal

/-- Removes up to `n` trailing zeros from the digits. -/
def trim : Nat → Decimal → Decimal
  | 0, d => d
  | n + 1, d => if d.digits % 10 = 0 then trim n ⟨d.digits / 10, d.exponent + 1⟩ else d

end Decimal

/-- The reals that round to a double, as fractions over one denominator: the two ends, which belong
to them if the mantissa is even, and the double itself. -/
structure Interval where
  low : Nat
  value : Nat
  high : Nat
  denominator : Nat
  closed : Bool

namespace Interval

/-- The interval of the double `mantissa · 2 ^ exponent`. Below a power of two the doubles lie
twice as close, except at the bottom of the range. -/
def around (mantissa : Nat) (exponent : Int) : Interval :=
  let scale := Nat.pow 2 (exponent - 2).toNat
  let below := if mantissa = 4503599627370496 && exponent != -1074 then 1 else 2
  { low := (4 * mantissa - below) * scale
    value := 4 * mantissa * scale
    high := (4 * mantissa + 2) * scale
    denominator := Nat.pow 2 (2 - exponent).toNat
    closed := mantissa % 2 == 0 }

/-- Multiplies the value and both ends by `10 ^ (-exponent)`. -/
def scaled (i : Interval) (exponent : Int) : Interval :=
  let factor := Nat.pow 10 (-exponent).toNat
  { i with
    low := i.low * factor
    value := i.value * factor
    high := i.high * factor
    denominator := i.denominator * Nat.pow 10 exponent.toNat }

/-- Whether a whole number lies in the interval. -/
def holds (i : Interval) (n : Nat) : Bool :=
  let x := n * i.denominator
  if i.closed then decide (i.low ≤ x) && decide (x ≤ i.high)
  else decide (i.low < x) && decide (x < i.high)

/-- The whole number of the interval that is nearest to its value, if one of the two neighbours of
the value lies in it. -/
def whole? (i : Interval) (tie : Tie) : Option Nat :=
  let n := i.value / i.denominator
  let twice := 2 * (i.value % i.denominator)
  match i.holds n, i.holds (n + 1) with
  | true, true =>
    let above : Bool := match compare twice i.denominator with
      | .lt => false
      | .gt => true
      | .eq => tie == .up || n % 2 == 1
    some (if above then n + 1 else n)
  | true, false => some n
  | false, true => some (n + 1)
  | false, false => none

/-- The least `e` from `low` on with `value < 10 ^ e`, found within `n` steps. -/
def magnitude (i : Interval) : Nat → Int → Int
  | 0, e => e
  | n + 1, e =>
    let s := i.scaled e
    if s.value < s.denominator then e else magnitude i n (e + 1)

/-- Tries one digit more at each step, from the grid `10 ^ exponent` on. -/
def search (i : Interval) (tie : Tie) : Nat → Int → Decimal
  | 0, exponent =>
    let s := i.scaled exponent
    ⟨s.value / s.denominator, exponent⟩
  | n + 1, exponent =>
    match (i.scaled exponent).whole? tie with
    | some digits => ⟨digits, exponent⟩
    | none => search i tie n (exponent - 1)

end Interval

/-- The shortest decimal of the double `mantissa · 2 ^ exponent`, without trailing zeros. Seventeen
digits suffice for every double. `1233 / 4096` is close enough to `log₁₀ 2` that the estimate of the
decimal magnitude, with one taken off, is below it by at most three. -/
def shortest (tie : Tie) (mantissa : Nat) (exponent : Int) : Decimal :=
  let i := Interval.around mantissa exponent
  let estimate := ((mantissa.log2 : Int) + exponent) * 1233 / 4096 - 1
  let magnitude := i.magnitude 4 estimate
  (i.search tie 17 (magnitude - 1)).trim 20

end ScriptLab.Number
