import Calculator.Number.Arithmetic
import Calculator.Number.Decimal
import Calculator.Number.Power

/-!
# Operations that trap

The machine's operations refuse some operands: they trap. `Machine` has these
operations with what each refuses, and `Guarded` has the operations on numbers
made from them, with the tests that come before and the traps that are caught.
No trap gets through a guard, and what the guarded operations yield is what
the total operations yield:

* `Guarded.divide_eq_ok`, `Guarded.power_eq_ok`, `Guarded.squareRoot_eq_ok`;
* `Guarded.ofBinary64_eq_ok`: the decimal for a number has no more digits than
  are kept.
-/

namespace Calculator

open Binary64

/-- Why the machine refuses an operation. -/
inductive Trap where
  /-- The divisor is zero. -/
  | zeroDivision
  /-- The result is too large. -/
  | overflow
  /-- The operation has no value there. -/
  | domain
  /-- The decimal has more digits than are kept. -/
  | precision
  deriving DecidableEq

namespace Machine

/-- The quotient; a divisor of zero traps. -/
def quotient (x y : Binary64) : Except Trap Binary64 :=
  if y.isZero then .error .zeroDivision else .ok (x.quotient y)

/-- The square root; what is below zero traps. -/
def squareRoot (x : Binary64) : Except Trap Binary64 :=
  if x.isBelowZero then .error .domain else .ok x.squareRoot

/-- The power; an overflow traps, and so does what lies outside the domain. -/
def power (x y : Binary64) : Except Trap Binary64 :=
  match powerOutcome x y with
  | .value z => .ok z
  | .overflow => .error .overflow
  | .outside => .error .domain

/-- The integer without the fraction; what is not finite traps. -/
def truncate : Binary64 → Except Trap Int
  | .nan => .error .domain
  | .infinity _ => .error .overflow
  | .finite negative units _ => .ok (signedUnits negative (units / unitsPerOne))

/-- The decimal digits that are kept. -/
def precision : Nat := 400

/-- A decimal with these digits; too many of them trap. -/
def decimal (negative : Bool) (coefficient : Nat) (exponent : Int) : Except Trap Decimal :=
  if (Nat.toDigits 10 coefficient).length ≤ precision then
    .ok (.finite negative coefficient exponent)
  else .error .precision

end Machine

namespace Guarded

/-- The number is the integer. -/
def isInt (n : Int) : Binary64 → Bool
  | .finite negative units _ => signedUnits negative units == n * unitsPerOne
  | _ => false

/-- The number is an odd integer. -/
def isOdd (x : Binary64) : Except Trap Bool :=
  if x.isFinite then do
    let n ← Machine.truncate x
    return isInt n x && n % 2 == 1
  else return false

/-- The quotient: the poles are decided before the division. -/
def divide (x y : Binary64) : Except Trap Binary64 :=
  if y.isZero then
    if x.isZero || x == .nan then return .nan
    else return .infinity (x.isNegative != y.isNegative)
  else Machine.quotient x y

/-- The square root: what is below zero has none. -/
def squareRoot (x : Binary64) : Except Trap Binary64 :=
  if x.isBelowZero then return .nan else Machine.squareRoot x

/-- The power: the traps of the machine's power are caught, and the poles decided there. -/
def power (x y : Binary64) : Except Trap Binary64 :=
  match Machine.power x y with
  | .error .overflow => do
    if x.isBelowZero then return .infinity (← isOdd y) else return .infinity false
  | .error .domain => do
    if x.isZero then
      if ← isOdd y then return .infinity x.isNegative else return .infinity false
    else return .nan
  | outcome => outcome

/-- The decimal shown for a number. -/
def ofBinary64 : Binary64 → Except Trap Decimal
  | .nan => return .nan
  | .infinity negative => return .infinity negative
  | .finite negative units _ =>
    if units % unitsPerOne = 0 then
      Machine.decimal (negative && units / unitsPerOne != 0) (units / unitsPerOne) 0
    else do
      let hundredths := roundHalfEven (units * 100) unitsPerOne
      let _ ← Machine.decimal negative hundredths (-2)
      return Decimal.ofHundredths negative hundredths

/-! ## No trap gets through -/

/-- A number is what is left of it without its fraction exactly if it has none. -/
theorem isInt_truncate (negative : Bool) (units : Nat) (h : Representable units) :
    isInt (signedUnits negative (units / unitsPerOne)) (.finite negative units h) =
      (units % unitsPerOne == 0) := by
  have hd := Nat.div_add_mod units unitsPerOne
  have hc : ((unitsPerOne * (units / unitsPerOne) : Nat) : Int) =
      (units / unitsPerOne : Nat) * (unitsPerOne : Int) := by
    rw [Nat.mul_comm, Int.natCast_mul]
  rw [isInt, Bool.eq_iff_iff, beq_iff_eq, beq_iff_eq]
  cases negative <;> simp only [signedUnits, Bool.false_eq_true, if_true, if_false]
  · rw [← hc]
    omega
  · rw [Int.neg_mul, ← hc]
    omega

theorem isOdd_eq_ok (x : Binary64) : isOdd x = .ok x.isOdd := by
  cases x with
  | nan | infinity => rfl
  | finite negative units h =>
    have hp : (signedUnits negative (units / unitsPerOne) % 2 == 1) =
        (units / unitsPerOne % 2 == 1) := by
      rw [Bool.eq_iff_iff, beq_iff_eq, beq_iff_eq]
      cases negative <;> simp only [signedUnits, Bool.false_eq_true, if_true, if_false] <;> omega
    show Except.ok (isInt _ _ && _) = _
    rw [isInt_truncate, hp]
    rfl

theorem divide_eq_ok (x y : Binary64) : divide x y = .ok (x.divide y) := by
  unfold divide Binary64.divide
  cases hy : y.isZero with
  | false => simp only [Machine.quotient, hy, Bool.false_eq_true, if_false]
  | true =>
    simp only [if_true]
    split <;> rfl

theorem squareRoot_eq_ok (x : Binary64) : squareRoot x = .ok x.squareRoot := by
  unfold squareRoot Machine.squareRoot
  cases hx : x.isBelowZero with
  | false => simp only [Bool.false_eq_true, if_false]
  | true => rw [if_pos rfl, squareRoot_of_isBelowZero hx]; rfl

theorem power_eq_ok (x y : Binary64) : power x y = .ok (x.power y) := by
  unfold power Machine.power
  cases h : powerOutcome x y with
  | value z => simp only [Binary64.power, h]
  | overflow =>
    rw [power_of_overflow h]
    simp only [isOdd_eq_ok]
    cases x.isBelowZero <;> rfl
  | outside =>
    rw [power_of_outside h]
    simp only [isOdd_eq_ok]
    cases x.isZero
    · rfl
    · cases y.isOdd
      · rw [Bool.and_false]; rfl
      · rw [Bool.and_true]; rfl

/-! ## Digits -/

/-- The first whole number that is too large. -/
def overflowWhole : Nat := 2 ^ 1024

theorem overflowUnits_eq : overflowUnits = overflowWhole * unitsPerOne := by
  rw [overflowUnits, width, overflowWhole, unitsPerOne, Nat.pow_add]

theorem whole_lt {units : Nat} (h : Representable units) : units / unitsPerOne < overflowWhole := by
  rw [Nat.div_lt_iff_lt_mul unitsPerOne_pos, ← overflowUnits_eq]
  exact h.2

theorem hundredths_le {units : Nat} (h : Representable units) :
    roundHalfEven (units * 100) unitsPerOne ≤ overflowWhole * 100 := by
  have hm : units * 100 < overflowUnits * 100 := Nat.mul_lt_mul_of_pos_right h.2 (by omega)
  have hq : units * 100 / unitsPerOne < overflowWhole * 100 := by
    rw [Nat.div_lt_iff_lt_mul unitsPerOne_pos, Nat.mul_right_comm, ← overflowUnits_eq]
    exact hm
  exact Nat.le_trans (roundHalfEven_le _ _) hq

/-- A coefficient of hundredths below the overflow is kept whole. -/
theorem decimal_eq_ok (negative : Bool) {coefficient : Nat} (exponent : Int)
    (h : coefficient ≤ overflowWhole * 100) :
    Machine.decimal negative coefficient exponent =
      .ok (.finite negative coefficient exponent) := by
  have hb : overflowWhole * 100 < 10 ^ Machine.precision := by decide +kernel
  have hl : (Nat.toDigits 10 coefficient).length ≤ Machine.precision := by
    rw [Nat.length_toDigits_le_iff (by omega) (by rw [Machine.precision]; omega)]
    exact Nat.lt_of_le_of_lt h hb
  exact if_pos hl

theorem ofBinary64_eq_ok (x : Binary64) : ofBinary64 x = .ok (Decimal.ofBinary64 x) := by
  cases x with
  | nan | infinity => rfl
  | finite negative units h =>
    unfold ofBinary64 Decimal.ofBinary64
    dsimp only
    split
    · have hw : units / unitsPerOne ≤ overflowWhole * 100 :=
        Nat.le_trans (Nat.le_of_lt (whole_lt h)) (Nat.le_mul_of_pos_right _ (by omega))
      exact decimal_eq_ok _ 0 hw
    · rw [decimal_eq_ok _ _ (hundredths_le h)]
      rfl

end Guarded

end Calculator
