import Calculator.Number.Bits

/-!
# Powers of floating point numbers

A power of finite operands has a value, overflows, or lies outside the domain: zero has no
negative power, and a negative base only the powers whose exponent is an integer. With an operand
that is not finite it always has a value. `Binary64.power` then gives every case a value.

* `Binary64.power_of_overflow`, `Binary64.power_of_outside`: the values at the poles.
-/

namespace Calculator

/-- What raising to a power yields, before the poles are given values. -/
inductive PowerOutcome where
  | value (x : Binary64)
  | overflow
  | outside
  deriving DecidableEq

namespace Binary64

/-- The order of the magnitude against one. -/
def compareOne : Binary64 → Ordering
  | finite _ units _ => compare units unitsPerOne
  | _ => .gt

/-- A power in which an operand is infinite or undefined: an exponent of zero and a base of one
give one whatever the other operand is. -/
def powerOfUnbounded (base exponent : Binary64) : Binary64 :=
  match base, exponent with
  | nan, y => if y.isZero then one else nan
  | x, nan => if x = one then one else nan
  | infinity s, y =>
    let negative := s && y.isOdd
    if y.isZero then one
    else if y.isNegative then finite negative 0 representable_zero
    else infinity negative
  | x, y =>
    match x.compareOne, y.isNegative with
    | .eq, _ => one
    | .gt, false | .lt, true => infinity false
    | _, _ => zero

/-- A power of zero whose exponent is not negative; an odd exponent keeps the sign of the zero. -/
def powerOfZero (negative : Bool) (exponent : Binary64) : Binary64 :=
  if exponent.isZero then one else finite (negative && exponent.isOdd) 0 representable_zero

/-- Raising to a power. The general case is the machine's power function. -/
def powerOutcome (base exponent : Binary64) : PowerOutcome :=
  if base.isFinite && exponent.isFinite then
    if base.isZero then
      if exponent.isBelowZero then .outside else .value (powerOfZero base.isNegative exponent)
    else if base.isBelowZero && !exponent.isInteger then .outside
    else
      match ofFloat (Float.pow base.toFloat exponent.toFloat) with
      | infinity _ => .overflow
      | x => .value x
  else .value (powerOfUnbounded base exponent)

/-- The power. An overflow is an infinity, negative for an odd power of a negative base; a negative
power of zero is one too, with the sign of the zero if the exponent is odd; else there is none. -/
def power (base exponent : Binary64) : Binary64 :=
  match powerOutcome base exponent with
  | .value x => x
  | .overflow => infinity (base.isBelowZero && exponent.isOdd)
  | .outside =>
    if base.isZero then infinity (base.isNegative && exponent.isOdd) else nan

theorem power_of_overflow {x y : Binary64} (h : powerOutcome x y = .overflow) :
    x.power y = infinity (x.isBelowZero && y.isOdd) := by
  simp [power, h]

theorem power_of_outside {x y : Binary64} (h : powerOutcome x y = .outside) :
    x.power y = if x.isZero then infinity (x.isNegative && y.isOdd) else nan := by
  simp [power, h]

end Binary64

end Calculator
