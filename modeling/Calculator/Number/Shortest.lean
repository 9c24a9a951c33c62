import Calculator.Number.Binary64

/-!
# The fewest digits that read back

A number is written with the fewest decimal digits that still round to it; of the texts with that
many digits it takes the nearest. A unit is `5 ^ 1074` steps of `10 ^ -1074`, so the search is one
on whole numbers of such steps: it tries the two neighbours of the number on coarser grids first
and ends at the number itself.

* `Binary64.roundUnits_shortest`: the digits chosen read back.
-/

namespace Calculator

namespace Binary64

/-- A unit, in steps of `10 ^ -1074`. -/
def stepsPerUnit : Nat := 5 ^ places

/-- The magnitude to which a count of steps is rounded, in units. -/
def ofSteps (steps : Nat) : Nat := roundUnits steps stepsPerUnit

/-- Of the neighbours of `exact` on a grid, the nearest that rounds to `units`; of two that are
equally near, the one that ends in an even digit. -/
def onGrid (units exact grid : Nat) : Option Nat :=
  let low := exact / grid * grid
  let high := low + grid
  let lowFits := ofSteps low == units
  let highFits := ofSteps high == units
  if lowFits && (!highFits || roundHalfEven exact grid == exact / grid) then some low
  else if highFits then some high
  else none

/-- The first grid with a neighbour that fits, from `10 ^ dropped` down. -/
def shortestFrom (units exact : Nat) : Nat → Nat
  | 0 => exact
  | dropped + 1 => (onGrid units exact (10 ^ (dropped + 1))).getD (shortestFrom units exact dropped)

/-- The count of steps with the fewest digits that rounds to `units`. -/
def shortest (units : Nat) : Nat :=
  let exact := units * stepsPerUnit
  shortestFrom units exact ((Nat.toDigits 10 exact).length - 1)

theorem stepsPerUnit_pos : 0 < stepsPerUnit := Nat.pow_pos (by omega)

theorem ofSteps_exact {units : Nat} (h : spacing units ∣ units) :
    ofSteps (units * stepsPerUnit) = units := by
  rw [ofSteps, roundUnits, Nat.mul_div_cancel _ stepsPerUnit_pos, Nat.mul_comm units,
    roundHalfEven_eq_div (Nat.mul_pos stepsPerUnit_pos (spacing_pos units))
      (Nat.mul_dvd_mul_left _ h), Nat.mul_div_mul_left _ _ stepsPerUnit_pos, Nat.div_mul_cancel h]

theorem ofSteps_of_onGrid {units exact grid steps : Nat}
    (h : onGrid units exact grid = some steps) : ofSteps steps = units := by
  simp only [onGrid] at h
  split at h
  · rename_i hl
    rw [Bool.and_eq_true, beq_iff_eq] at hl
    rw [← Option.some.inj h, hl.1]
  · rw [Option.ite_none_right_eq_some, beq_iff_eq] at h
    rw [← Option.some.inj h.2, h.1]

theorem ofSteps_shortestFrom {units exact : Nat} (h : ofSteps exact = units) (dropped : Nat) :
    ofSteps (shortestFrom units exact dropped) = units := by
  induction dropped with
  | zero => rw [shortestFrom, h]
  | succ dropped ih =>
    rw [shortestFrom]
    cases hs : onGrid units exact (10 ^ (dropped + 1)) with
    | none => exact ih
    | some steps => exact ofSteps_of_onGrid hs

theorem roundUnits_shortest {units : Nat} (h : spacing units ∣ units) :
    roundUnits (shortest units) stepsPerUnit = units :=
  ofSteps_shortestFrom (ofSteps_exact h) _

/-- The significant digits of a count of steps. -/
def significantDigits (steps : Nat) : List Char :=
  let digits := (Nat.toDigits 10 steps).reverse.dropWhile (· == '0')
  if digits = [] then ['0'] else digits.reverse

/-- The power of ten of the first digit of a count of steps. -/
def decimalExponent (steps : Nat) : Int :=
  if steps = 0 then 0 else (Nat.toDigits 10 steps).length - 1 - (places : Int)

end Binary64

/-- How the text of a number is laid out around its digits. -/
structure NumberStyle where
  /-- The least power of ten that is written without an exponent. -/
  leastPlain : Int
  /-- The greatest power of ten that is written without an exponent. -/
  greatestPlain : Int
  /-- The least count of digits of an exponent. -/
  exponentDigits : Nat
  infinity : List Char
  nan : List Char

namespace NumberStyle

/-- Digits without an exponent: at least one on either side of the point. -/
def plain (digits : List Char) : Int → List Char
  | .ofNat e =>
    digits.take (e + 1) ++ List.replicate (e + 1 - digits.length) '0' ++
      '.' :: (if digits.length ≤ e + 1 then ['0'] else digits.drop (e + 1))
  | .negSucc e => '0' :: '.' :: List.replicate e '0' ++ digits

/-- Digits with an exponent: one before the point, and no point after a single digit. -/
def scientific (style : NumberStyle) (digits : List Char) (exponent : Int) : List Char :=
  let power := Nat.toDigits 10 exponent.natAbs
  digits.take 1 ++ (if digits.length ≤ 1 then [] else '.' :: digits.drop 1) ++
    'e' :: (if exponent < 0 then '-' else '+') ::
    List.replicate (style.exponentDigits - power.length) '0' ++ power

/-- The text of a magnitude in units. -/
def magnitude (style : NumberStyle) (units : Nat) : List Char :=
  let steps := Binary64.shortest units
  let exponent := Binary64.decimalExponent steps
  let digits := Binary64.significantDigits steps
  if style.leastPlain ≤ exponent ∧ exponent ≤ style.greatestPlain then plain digits exponent
  else style.scientific digits exponent

/-- The text of a number. -/
def write (style : NumberStyle) : Binary64 → List Char
  | .nan => style.nan
  | .infinity negative => (if negative then ['-'] else []) ++ style.infinity
  | .finite negative units _ => (if negative then ['-'] else []) ++ style.magnitude units

end NumberStyle

end Calculator
