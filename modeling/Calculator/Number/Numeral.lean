import Calculator.Number.Binary64

/-!
# Numerals

A numeral is a run of digits with at most one point among them and at least one digit. Its value
is the number nearest to the decimal it writes. `Binary64.ofDecimal` reads a decimal with a power
of ten, of any size.
-/

namespace Calculator

namespace Binary64

/-- The number nearest to `coefficient * 10 ^ exponent`. Exponents far outside the range of the
numbers are decided by the count of digits, without computing the power. -/
def ofDecimal (negative : Bool) (coefficient : Nat) (exponent : Int) : Binary64 :=
  let size := exponent + (Nat.toDigits 10 coefficient).length
  if coefficient = 0 ∨ size < -400 then finite negative 0 representable_zero
  else if 400 < size then infinity negative
  else
    match exponent with
    | .ofNat zeros => ofUnits negative (coefficient * 10 ^ zeros * unitsPerOne)
    | .negSucc places => ofRatio negative (coefficient * unitsPerOne) (10 ^ (places + 1))

end Binary64

/-- A character that numerals are made of. -/
def isNumeralChar (c : Char) : Bool := c.isDigit || c == '.'

/-- The number nearest to the decimal with these digits before and after its point. -/
def fixedPoint (whole fraction : List Char) : Binary64 :=
  .ofRatio false (Nat.ofDigitChars 10 (whole ++ fraction) 0 * Binary64.unitsPerOne)
    (10 ^ fraction.length)

/-- The value of a numeral; `none` if the text is no numeral. -/
def numeralValue? (text : List Char) : Option Binary64 :=
  let whole := text.takeWhile Char.isDigit
  match text.dropWhile Char.isDigit with
  | [] => if whole = [] then none else some (fixedPoint whole [])
  | point :: fraction =>
    if point = '.' ∧ fraction.all Char.isDigit ∧ whole ++ fraction ≠ [] then
      some (fixedPoint whole fraction)
    else none

end Calculator
