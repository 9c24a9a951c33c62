import Calculator.Number.Rounding

/-!
# Floating point numbers of 64 bits

A finite number is a sign and a count of the smallest positive number, `2 ^ -1074`. Every finite
number is a whole count of these *units*, so exact arithmetic on numbers is arithmetic on whole
numbers, and an operation rounds once, by `Binary64.ofRatio`, which keeps 53 binary digits.

* `Binary64.representable_mul_two_pow`: 53 binary digits and a power of two are representable;
* `Binary64.ofUnits_eq_finite`: a representable magnitude is its own rounding.
-/

namespace Calculator

-- Powers of natural numbers are those of the core library, whatever other instance is in scope.
attribute [instance (high + 1), default_instance (high + 1)] instPowNat

namespace Binary64

/-- The binary places of the smallest positive number. -/
def places : Nat := 1074

/-- One, in units of `2 ^ -1074`. -/
def unitsPerOne : Nat := 2 ^ places

theorem unitsPerOne_pos : 0 < unitsPerOne := Nat.two_pow_pos places

/-- The binary digits that a magnitude in units has at most. -/
def width : Nat := 1024 + places

/-- The first magnitude that is too large, in units: `2 ^ 1024`. -/
def overflowUnits : Nat := 2 ^ width

/-- The distance of neighbouring numbers at a magnitude: 53 binary digits are kept. -/
def spacing (units : Nat) : Nat := 2 ^ (units.log2 - 52)

/-- The magnitudes of the finite numbers. -/
def Representable (units : Nat) : Prop := spacing units ∣ units ∧ units < overflowUnits

instance (units : Nat) : Decidable (Representable units) :=
  inferInstanceAs (Decidable (_ ∧ _))

theorem spacing_pos (units : Nat) : 0 < spacing units := Nat.two_pow_pos _

theorem spacing_dvd_mul_two_pow {m : Nat} (s : Nat) (hm : m ≤ 2 ^ 53) :
    spacing (m * 2 ^ s) ∣ m * 2 ^ s := by
  by_cases hz : m * 2 ^ s = 0
  · rw [hz]; exact Nat.dvd_zero _
  · rcases Nat.lt_or_eq_of_le hm with hlt | rfl
    · have hlog : (m * 2 ^ s).log2 < 53 + s := by
        rw [Nat.log2_lt hz, Nat.pow_add]
        exact Nat.mul_lt_mul_of_pos_right hlt (Nat.two_pow_pos s)
      exact Nat.dvd_trans (Nat.pow_dvd_pow 2 (by omega)) (Nat.dvd_mul_left _ _)
    · rw [← Nat.pow_add, spacing, Nat.log2_two_pow]
      exact Nat.pow_dvd_pow 2 (by omega)

theorem representable_mul_two_pow {m s : Nat} (hm : m ≤ 2 ^ 53)
    (hb : m * 2 ^ s < overflowUnits) : Representable (m * 2 ^ s) :=
  ⟨spacing_dvd_mul_two_pow s hm, hb⟩

theorem representable_two_pow {s : Nat} (hs : s < width) : Representable (2 ^ s) := by
  have hb : 2 ^ s < overflowUnits := Nat.pow_lt_pow_right (by omega) hs
  rw [← Nat.one_mul (2 ^ s)] at hb ⊢
  exact representable_mul_two_pow (by omega) hb

theorem overflowUnits_pos : 0 < overflowUnits :=
  Nat.lt_of_le_of_lt (Nat.zero_le _) (representable_two_pow (s := 0) (by decide)).2

theorem representable_zero : Representable 0 := ⟨Nat.dvd_zero _, overflowUnits_pos⟩

end Binary64

/-- A floating point number: not a number, an infinity, or a signed count of units. -/
inductive Binary64 where
  | nan
  | infinity (negative : Bool)
  | finite (negative : Bool) (units : Nat) (representable : Binary64.Representable units)
  deriving DecidableEq

namespace Binary64

/-- The representable count nearest to `num / den` units, were there no greatest one. -/
def roundUnits (num den : Nat) : Nat :=
  let step := spacing (num / den)
  roundHalfEven num (den * step) * step

theorem div_spacing_lt (q : Nat) : q / spacing q < 2 ^ 53 := by
  rw [Nat.div_lt_iff_lt_mul (spacing_pos q), spacing, ← Nat.pow_add]
  exact Nat.lt_of_lt_of_le Nat.lt_log2_self (Nat.pow_le_pow_right (by omega) (by omega))

theorem spacing_dvd_roundUnits (num den : Nat) :
    spacing (roundUnits num den) ∣ roundUnits num den := by
  have h := roundHalfEven_le num (den * spacing (num / den))
  rw [← Nat.div_div_eq_div_mul] at h
  exact spacing_dvd_mul_two_pow _ (Nat.le_trans h (div_spacing_lt (num / den)))

/-- The number nearest to `num / den` units, a tie going to the even one; what is too large is an
infinity. -/
def ofRatio (negative : Bool) (num den : Nat) : Binary64 :=
  if h : roundUnits num den < overflowUnits then
    finite negative (roundUnits num den) ⟨spacing_dvd_roundUnits num den, h⟩
  else infinity negative

/-- The number nearest to a whole count of units. -/
def ofUnits (negative : Bool) (units : Nat) : Binary64 := ofRatio negative units 1

theorem roundUnits_eq_self {units : Nat} (h : spacing units ∣ units) :
    roundUnits units 1 = units := by
  rw [roundUnits, Nat.div_one, Nat.one_mul, roundHalfEven_eq_div (spacing_pos units) h,
    Nat.div_mul_cancel h]

theorem ofUnits_eq_finite (negative : Bool) {units : Nat} (h : Representable units) :
    ofUnits negative units = finite negative units h := by
  have hr := roundUnits_eq_self h.1
  simp only [ofUnits, ofRatio, hr, h.2, dif_pos]

/-- Zero, without its sign. -/
def zero : Binary64 := finite false 0 representable_zero

/-- One. -/
def one : Binary64 :=
  finite false unitsPerOne (representable_two_pow (by decide : places < width))

/-- The number is neither infinite nor undefined. -/
def isFinite : Binary64 → Bool
  | finite .. => true
  | _ => false

/-- The number is zero, of either sign. -/
def isZero : Binary64 → Bool
  | finite _ units _ => units == 0
  | _ => false

/-- The sign is written as minus; what is not a number has no sign. -/
def isNegative : Binary64 → Bool
  | nan => false
  | infinity negative => negative
  | finite negative _ _ => negative

/-- The number is less than zero; a negative zero is not. -/
def isBelowZero (x : Binary64) : Bool := x.isNegative && !x.isZero

/-- The number is finite and has no fraction. -/
def isInteger : Binary64 → Bool
  | finite _ units _ => units % unitsPerOne == 0
  | _ => false

/-- The number is an odd integer. -/
def isOdd : Binary64 → Bool
  | finite _ units _ => units % unitsPerOne == 0 && units / unitsPerOne % 2 == 1
  | _ => false

end Binary64

end Calculator
