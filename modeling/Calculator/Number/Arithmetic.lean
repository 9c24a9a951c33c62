import Calculator.Number.Binary64

/-!
# Arithmetic on floating point numbers

Each operation forms the exact result on whole numbers of units and rounds it once. None of them
fails: a pole gives an infinity, and what has no value is `nan`.

* `Binary64.divide_of_isZero`: division at the pole;
* `Binary64.squareRoot_of_isBelowZero`: there is no root below zero.
-/

namespace Calculator

/-- The root of `n`, rounded down, from `count` pairs of binary digits. -/
def floorRootOfPairs : Nat → Nat → Nat
  | 0, _ => 0
  | count + 1, n =>
    let even := 2 * floorRootOfPairs count (n / 4)
    if (even + 1) * (even + 1) ≤ n then even + 1 else even

/-- The greatest whole number whose square is at most `n`. -/
def floorRoot (n : Nat) : Nat := floorRootOfPairs (n.log2 / 2 + 1) n

namespace Binary64

/-- A sign and a count of units as one integer. -/
def signedUnits (negative : Bool) (units : Nat) : Int :=
  if negative then -(units : Int) else units

/-- The number nearest to an integer count of units; zero takes the given sign. -/
def ofInt (zeroNegative : Bool) (units : Int) : Binary64 :=
  ofUnits (if units = 0 then zeroNegative else units < 0) units.natAbs

/-- The number with the other sign. -/
def neg : Binary64 → Binary64
  | nan => nan
  | infinity negative => infinity !negative
  | finite negative units h => finite (!negative) units h

/-- The sum. A zero sum is negative only if both terms are. -/
def add : Binary64 → Binary64 → Binary64
  | nan, _ => nan
  | _, nan => nan
  | infinity s, infinity t => if s = t then infinity s else nan
  | infinity s, finite .. => infinity s
  | finite .., infinity t => infinity t
  | finite s m _, finite t n _ => ofInt (s && t) (signedUnits s m + signedUnits t n)

/-- The difference. -/
def sub (x y : Binary64) : Binary64 := x.add y.neg

/-- The product. -/
def mul : Binary64 → Binary64 → Binary64
  | nan, _ => nan
  | _, nan => nan
  | infinity s, infinity t => infinity (s != t)
  | infinity s, finite t n _ => if n = 0 then nan else infinity (s != t)
  | finite s m _, infinity t => if m = 0 then nan else infinity (s != t)
  | finite s m _, finite t n _ => ofRatio (s != t) (m * n) unitsPerOne

/-- The quotient by a divisor other than zero. -/
def quotient : Binary64 → Binary64 → Binary64
  | nan, _ => nan
  | _, nan => nan
  | infinity _, infinity _ => nan
  | infinity s, finite t _ _ => infinity (s != t)
  | finite s _ _, infinity t => finite (s != t) 0 representable_zero
  | finite s m _, finite t n _ => ofRatio (s != t) (m * unitsPerOne) n

/-- The quotient. By zero it is an infinity whose sign follows both operands, a negative zero
included; zero by zero is undefined. -/
def divide (x y : Binary64) : Binary64 :=
  if y.isZero then
    if x.isZero || x == nan then nan else infinity (x.isNegative != y.isNegative)
  else x.quotient y

/-- The multiple of the spacing at the root of `square` that is nearest to that root. -/
def nearestRoot (square : Nat) : Nat :=
  let step := spacing (floorRoot square)
  let below := floorRoot square / step
  let middle := (2 * below + 1) * step
  if 4 * square < middle * middle then below * step
  else if middle * middle < 4 * square then (below + 1) * step
  else (below + below % 2) * step

/-- The square root; below zero there is none. -/
def squareRoot : Binary64 → Binary64
  | nan => nan
  | infinity negative => if negative then nan else infinity false
  | finite negative units h =>
    if units = 0 then finite negative units h
    else if negative then nan
    else ofUnits false (nearestRoot (units * unitsPerOne))

theorem divide_of_isZero {x y : Binary64} (hy : y.isZero = true) (hx : x.isZero = false)
    (hn : x ≠ nan) : x.divide y = infinity (x.isNegative != y.isNegative) := by
  simp [divide, hy, hx, hn]

theorem squareRoot_of_isBelowZero {x : Binary64} (h : x.isBelowZero = true) :
    x.squareRoot = nan := by
  cases x <;> simp_all [isBelowZero, isNegative, isZero, squareRoot]

end Binary64

end Calculator
