import ScriptLab.Number.Arithmetic
import ScriptLab.Number.Shortest

/-!
# Texts of numbers

A style says how the digits of a shortest decimal are laid out. The language shows numbers without
an exponent; the JSON text of a number turns to an exponent outside a middle range.
-/

namespace ScriptLab.Number

/-- How a shortest decimal is written. -/
structure Style where
  /-- The choice between two equally near decimals. -/
  tie : Tie
  /-- The exponents of the leading digit, from the first up to but not with the second, that are
  written without an exponent; all of them if absent. -/
  plain : Option (Int × Int)
  /-- What follows the digits of a whole number that is written without an exponent. -/
  wholeMark : String

namespace Style

/-- The display of the language: all digits are written out. -/
def display : Style := ⟨.up, none, ""⟩

/-- The JSON text: exponents of the leading digit from `-5` to `15` are written out, and a whole
number is marked as one that is not an integer. -/
def json : Style := ⟨.even, some (-5, 16), ".0"⟩

/-- The digits with a point or zeros placed according to the exponent of the leading digit. -/
def positional (style : Style) (digits : List Char) (lead : Int) : String :=
  if lead < 0 then
    String.ofList ('0' :: '.' :: (List.replicate (-lead - 1).toNat '0' ++ digits))
  else
    let whole := lead.toNat + 1
    if digits.length ≤ whole then
      String.ofList (digits ++ List.replicate (whole - digits.length) '0') ++ style.wholeMark
    else String.ofList (digits.take whole ++ '.' :: digits.drop whole)

/-- The digits with a point behind the first and an exponent that has an explicit sign. -/
def scientific (digits : List Char) (lead : Int) : String :=
  let mantissa := match digits with
    | first :: second :: rest => first :: '.' :: second :: rest
    | digits => digits
  String.ofList mantissa ++ "e" ++ (if lead < 0 then "-" else "+") ++ Nat.repr lead.natAbs

/-- The text of a positive decimal. -/
def write (style : Style) (d : Decimal) : String :=
  let digits := (Nat.repr d.digits).toList
  let lead := d.exponent + digits.length - 1
  match style.plain with
  | none => style.positional digits lead
  | some (low, high) =>
    if low ≤ lead && lead < high then style.positional digits lead else scientific digits lead

/-- The text of a finite double that is not zero. -/
def writeFinite (style : Style) (negative : Bool) (mantissa : Nat) (exponent : Int) : String :=
  (if negative then "-" else "") ++ style.write (shortest style.tie mantissa exponent)

end Style

/-- The whole number that a double denotes if its magnitude is below `bound`. -/
def wholeBelow? (bound : Nat) (x : Float) : Option Int :=
  let f := form x
  match f.floor? with
  | some i => if f.isWhole && i.natAbs < bound then some i else none
  | none => none

/-- The text of a number as the language shows it. Whole numbers below `10 ^ 21` have all their
digits; others have the fewest digits that read back, with zeros in place of an exponent. -/
def text (x : Float) : String :=
  match form x with
  | .nan => "NaN"
  | .infinite negative => if negative then "-Infinity" else "Infinity"
  | .finite negative mantissa exponent =>
    match wholeBelow? 1000000000000000000000 x with
    | some i => Int.repr i
    | none => Style.display.writeFinite negative mantissa exponent

end ScriptLab.Number
