import ScriptLab.Number.Form

/-!
# Reading decimals

A decimal is read as the double nearest to it.
-/

namespace ScriptLab.Number

/-- The whole number that a row of decimal digits denotes. -/
def ofDigits (digits : List Char) : Nat :=
  digits.foldl (fun n c => 10 * n + (c.toNat - '0'.toNat)) 0

/-- The double nearest to `± n · 10 ^ exponent`. Powers of ten far outside the range of doubles are
not computed: from `10 ^ 310` on every value is infinite, below `10 ^ -400` it is zero. -/
def ofDecimal (negative : Bool) (n : Nat) (exponent : Int) : Float :=
  if n = 0 then nearest negative 0 1
  else if 310 ≤ exponent then nearest negative (Nat.pow 2 1024) 1
  else if exponent + (n.log2 + 1) < -400 then nearest negative 0 1
  else nearest negative (n * Nat.pow 10 exponent.toNat) (Nat.pow 10 (-exponent).toNat)

/-- The double nearest to the decimal with the given digits before and behind the point. -/
def ofPlaces (whole places : List Char) : Float :=
  ofDecimal false (ofDigits (whole ++ places)) (-places.length)

/-- A whole exponent with an optional sign. -/
def readExponent? (cs : List Char) : Option Int :=
  let (negative, digits) := match cs with
    | '-' :: cs => (true, cs)
    | '+' :: cs => (false, cs)
    | cs => (false, cs)
  if digits.isEmpty || !digits.all Char.isDigit then none
  else some (if negative then -(ofDigits digits : Int) else ofDigits digits)

/-- Reads `digits[.digits][e exponent]`, where the digits may be missing on one side of the point. -/
def readMagnitude? (negative : Bool) (cs : List Char) : Option Float := do
  let (whole, rest) := cs.span Char.isDigit
  let (places, rest) := match rest with
    | '.' :: rest => rest.span Char.isDigit
    | rest => ([], rest)
  if whole.isEmpty && places.isEmpty then none
  let exponent ← match rest with
    | [] => some 0
    | 'e' :: rest => readExponent? rest
    | 'E' :: rest => readExponent? rest
    | _ => none
  return ofDecimal negative (ofDigits (whole ++ places)) (exponent - places.length)

/-- Reads a decimal with an optional sign and exponent, or the name of an infinity or of what is
not a number, in any case of letters. -/
def read? (text : String) : Option Float :=
  let (negative, cs) := match text.toList with
    | '-' :: cs => (true, cs)
    | '+' :: cs => (false, cs)
    | cs => (false, cs)
  let word := String.ofList (cs.map Char.toLower)
  if word = "inf" || word = "infinity" then
    some (ofMagnitudeBits negative 0x7ff0000000000000)
  else if word = "nan" then some (0.0 / 0.0)
  else readMagnitude? negative cs

end ScriptLab.Number
