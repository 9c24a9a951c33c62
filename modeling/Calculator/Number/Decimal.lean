import Calculator.Number.Binary64

/-!
# Decimal results

A result is shown as a decimal: a sign, a coefficient and a power of ten. A number without a
fraction keeps all its digits; any other is rounded to hundredths, a tie going to the even
hundredth, and loses its trailing zeros. `Decimal.plain` writes a decimal without an exponent.

* `Decimal.stripZeros_value`: stripping keeps the value;
* `Decimal.ofBinary64_of_isInteger`: a number without a fraction is exact.
-/

namespace Calculator

/-- A decimal: `coefficient * 10 ^ exponent` with a sign, an infinity, or not a number. -/
inductive Decimal where
  | nan
  | infinity (negative : Bool)
  | finite (negative : Bool) (coefficient : Nat) (exponent : Int)
  deriving DecidableEq

namespace Decimal

/-- Zero, without sign. -/
def zero : Decimal := finite false 0 0

/-- Moves up to `count` trailing zeros of a coefficient into the exponent. -/
def stripZeros : Nat → Nat → Int → Nat × Int
  | 0, coefficient, exponent => (coefficient, exponent)
  | count + 1, coefficient, exponent =>
    if coefficient % 10 = 0 then stripZeros count (coefficient / 10) (exponent + 1)
    else (coefficient, exponent)

/-- A count of hundredths as a decimal without trailing zeros. -/
def ofHundredths (negative : Bool) (hundredths : Nat) : Decimal :=
  if hundredths = 0 then zero
  else
    let stripped := stripZeros (Nat.toDigits 10 hundredths).length hundredths (-2)
    finite negative stripped.1 stripped.2

/-- The decimal shown for a number. -/
def ofBinary64 : Binary64 → Decimal
  | .nan => nan
  | .infinity negative => infinity negative
  | .finite negative units _ =>
    if units % Binary64.unitsPerOne = 0 then
      let whole := units / Binary64.unitsPerOne
      finite (negative && whole != 0) whole 0
    else ofHundredths negative (roundHalfEven (units * 100) Binary64.unitsPerOne)

/-- The digits of a coefficient, with a point before the last `places` of them. -/
def pointed (coefficient places : Nat) : List Char :=
  let digits := Nat.toDigits 10 coefficient
  let padded := List.replicate (places + 1 - digits.length) '0' ++ digits
  padded.take (padded.length - places) ++ '.' :: padded.drop (padded.length - places)

/-- The magnitude `coefficient * 10 ^ exponent` without an exponent. -/
def plainMagnitude (coefficient : Nat) : Int → List Char
  | .ofNat zeros => Nat.toDigits 10 (coefficient * 10 ^ zeros)
  | .negSucc places => pointed coefficient (places + 1)

/-- The text of a decimal without an exponent. -/
def plain : Decimal → List Char
  | nan => ['N', 'a', 'N']
  | infinity negative => (if negative then ['-'] else []) ++ "Infinity".toList
  | finite negative coefficient exponent =>
    (if negative then ['-'] else []) ++ plainMagnitude coefficient exponent

theorem stripZeros_value (count coefficient : Nat) (exponent : Int) :
    ∃ k : Nat, (stripZeros count coefficient exponent).2 = exponent + k ∧
      (stripZeros count coefficient exponent).1 * 10 ^ k = coefficient := by
  induction count generalizing coefficient exponent with
  | zero => exact ⟨0, by simp [stripZeros]⟩
  | succ count ih =>
    unfold stripZeros
    split
    · rename_i h
      obtain ⟨k, hk, hv⟩ := ih (coefficient / 10) (exponent + 1)
      refine ⟨k + 1, by omega, ?_⟩
      rw [Nat.pow_succ, ← Nat.mul_assoc, hv]
      omega
    · exact ⟨0, by simp⟩

theorem ofBinary64_of_isInteger {negative : Bool} {units : Nat}
    {h : Binary64.Representable units} (hi : units % Binary64.unitsPerOne = 0) :
    ofBinary64 (.finite negative units h) =
      finite (negative && units / Binary64.unitsPerOne != 0) (units / Binary64.unitsPerOne) 0 := by
  simp [ofBinary64, hi]

end Decimal

end Calculator
