import Calculator.Proofs.Number.Integer
import Calculator.Proofs.Number.Rounded
import Calculator.Proofs.Number.Trapping

/-!
# Division, power and root at the poles

The operations on numbers answer for all operands, also where the machine's operations trap. Of the
machine's power no more is known here than where it may trap (`Machine.IsPower`), so that what is
put in place of its traps can be stated for any such power (`Guarded.powerOver`).

* `Binary64.isInteger_iff`, `Binary64.isOdd_iff`: the tests for integers, of whatever size;
* `Machine.isPower_power`: `Machine.power` traps nowhere else;
* `Guarded.powerOver_trap`, `Guarded.poles_decided`: what is put in place of the traps.
-/

namespace Calculator

namespace Binary64

variable {x y : Binary64} {n : ℤ}

/-! ## Integers and odd integers -/

theorem isInteger_finite (negative : Bool) {units : Nat} (h : Representable units) :
    (finite negative units h).isInteger = true ↔ unitsPerOne ∣ units := by
  rw [isInteger, beq_iff_eq, Nat.dvd_iff_mod_eq_zero]

theorem isInteger_of_isOdd (h : x.isOdd = true) : x.isInteger = true := by
  cases x with
  | nan | infinity => cases h
  | finite negative units hr =>
    rw [isOdd, Bool.and_eq_true] at h
    exact h.1

theorem isInteger_iff : x.isInteger = true ↔ ∃ n : ℤ, x.Is n := by
  constructor
  · intro h
    cases x with
    | nan | infinity => cases h
    | finite negative units hr =>
      obtain ⟨k, hk⟩ := exists_eq_mul_left_of_dvd ((isInteger_finite negative hr).mp h)
      have hm := signedUnits_mul negative false k unitsPerOne
      rw [Bool.bne_false, ← hk] at hm
      exact ⟨signedUnits negative k, negative, units, hr, rfl, hm⟩
  · rintro ⟨n, hn⟩
    obtain ⟨negative, units, hr, rfl, hu, -⟩ := hn.exists_units
    exact (isInteger_finite negative hr).mpr ⟨n.natAbs, hu.trans (Nat.mul_comm _ _)⟩

theorem Is.isOdd_iff (h : x.Is n) : x.isOdd = true ↔ n % 2 = 1 := by
  have hi : x.isInteger = true := isInteger_iff.mpr ⟨n, h⟩
  obtain ⟨negative, units, hr, rfl, hu, -⟩ := h.exists_units
  have hd : units / unitsPerOne = n.natAbs := by rw [hu, Nat.mul_div_cancel _ unitsPerOne_pos]
  rw [isInteger] at hi
  rw [isOdd, hi, Bool.true_and, hd, beq_iff_eq]
  omega

/-- The test for odd integers is right for all numbers, however large. -/
theorem isOdd_iff : x.isOdd = true ↔ ∃ n : ℤ, x.Is (2 * n + 1) := by
  constructor
  · intro h
    obtain ⟨n, hn⟩ := isInteger_iff.mp (isInteger_of_isOdd h)
    have hp := hn.isOdd_iff.mp h
    refine ⟨n / 2, ?_⟩
    rwa [show 2 * (n / 2) + 1 = n by omega]
  · rintro ⟨n, hn⟩
    exact hn.isOdd_iff.mpr (by omega)

/-! ## Where a power may trap -/

/-- A negative power of zero. -/
def AtPole (x y : Binary64) : Prop := x.isZero = true ∧ y.isBelowZero = true

/-- A power of a number below zero whose exponent is not an integer. -/
def OutsideReals (x y : Binary64) : Prop :=
  x.isFinite = true ∧ x.isBelowZero = true ∧ y.isFinite = true ∧ ∀ n : ℤ, ¬ y.Is n

theorem isZero_of_isBelowZero (h : x.isBelowZero = true) : x.isZero = false := by
  rw [isBelowZero, Bool.and_eq_true, Bool.not_eq_true'] at h
  exact h.2

theorem isBelowZero_eq_isNegative (h : x.isZero = false) : x.isBelowZero = x.isNegative := by
  rw [isBelowZero, h, Bool.not_false, Bool.and_true]

theorem OutsideReals.isOdd (h : OutsideReals x y) : y.isOdd = false := by
  rw [Bool.eq_false_iff]
  intro ho
  obtain ⟨n, hn⟩ := isOdd_iff.mp ho
  exact h.2.2.2 _ hn

theorem outsideReals_iff (hx : x.isFinite = true) (hy : y.isFinite = true) :
    OutsideReals x y ↔ (x.isBelowZero && !y.isInteger) = true := by
  rw [OutsideReals, Bool.and_eq_true, Bool.not_eq_true', Bool.eq_false_iff, ne_eq, isInteger_iff,
    not_exists]
  exact ⟨fun h => ⟨h.2.1, h.2.2.2⟩, fun h => ⟨hx, h.1, hy, h.2⟩⟩

/-- An overflow has finite operands, and zero is not its base. -/
theorem of_powerOutcome_overflow (h : powerOutcome x y = .overflow) :
    x.isFinite = true ∧ y.isFinite = true ∧ x.isZero = false := by
  unfold powerOutcome at h
  split at h
  case isTrue hf =>
    rw [Bool.and_eq_true] at hf
    cases hz : x.isZero with
    | false => exact ⟨hf.1, hf.2, rfl⟩
    | true =>
      rw [hz, if_pos rfl] at h
      split at h <;> cases h
  case isFalse => cases h

theorem powerOutcome_of_outsideReals (h : OutsideReals x y) : powerOutcome x y = .outside := by
  rw [powerOutcome, h.1, h.2.2.1, isZero_of_isBelowZero h.2.1,
    (outsideReals_iff h.1 h.2.2.1).mp h]
  rfl

/-- What lies outside the domain. -/
theorem of_powerOutcome_outside (h : powerOutcome x y = .outside) :
    AtPole x y ∨ OutsideReals x y := by
  unfold powerOutcome at h
  split at h
  case isFalse => cases h
  case isTrue hf =>
    rw [Bool.and_eq_true] at hf
    cases hz : x.isZero with
    | true =>
      rw [hz, if_pos rfl] at h
      split at h
      case isTrue hb => exact .inl ⟨hz, hb⟩
      case isFalse => cases h
    | false =>
      rw [hz, if_neg Bool.false_ne_true] at h
      split at h
      case isTrue ho => exact .inr ((outsideReals_iff hf.1 hf.2).mpr ho)
      case isFalse => split at h <;> cases h

end Binary64

open Binary64

namespace Machine

/-- What is relied on of a power that traps: it traps for no other reasons than these two, only
finite operands overflow, and zero never does; the powers outside the reals lie outside the domain,
and nothing else does but negative powers of zero. -/
structure IsPower (pow : Binary64 → Binary64 → Except Trap Binary64) : Prop where
  trap : ∀ {x y t}, pow x y = .error t → t = .overflow ∨ t = .domain
  overflow : ∀ {x y}, pow x y = .error .overflow →
    x.isFinite = true ∧ y.isFinite = true ∧ x.isZero = false
  domain : ∀ {x y}, pow x y = .error .domain → AtPole x y ∨ OutsideReals x y
  outside : ∀ {x y}, OutsideReals x y → pow x y = .error .domain

theorem isPower_power : IsPower power where
  trap {x y t} h := by
    unfold power at h
    split at h
    · cases h
    · exact .inl (Except.error.inj h).symm
    · exact .inr (Except.error.inj h).symm
  overflow {x y} h := by
    unfold power at h
    split at h
    case h_2 ho => exact of_powerOutcome_overflow ho
    all_goals cases h
  domain {x y} h := by
    unfold power at h
    split at h
    case h_3 ho => exact of_powerOutcome_outside ho
    all_goals cases h
  outside {x y} h := by
    rw [power, powerOutcome_of_outsideReals h]

end Machine

namespace Guarded

variable {pow : Binary64 → Binary64 → Except Trap Binary64} {x y z : Binary64} {t : Trap}

/-- The power made from a power that traps, as `power` is made from that of the machine: the traps
are caught, and the poles decided there. -/
def powerOver (pow : Binary64 → Binary64 → Except Trap Binary64) (x y : Binary64) :
    Except Trap Binary64 :=
  match pow x y with
  | .error .overflow => do
    if x.isBelowZero then return .infinity (← isOdd y) else return .infinity false
  | .error .domain => do
    if x.isZero then
      if ← isOdd y then return .infinity x.isNegative else return .infinity false
    else return .nan
  | outcome => outcome

theorem powerOver_power : powerOver Machine.power = power := rfl

/-! ## Division -/

/-- What dividing yields. -/
structure DividesTo (x y q : Binary64) : Prop where
  quotient : y.isZero = false → IsQuotient x y q
  undefined : y.isZero = true → x.isZero = true ∨ x = .nan → q = .nan
  pole : y.isZero = true → x.isZero = false → x ≠ .nan →
    q = .infinity (x.isNegative != y.isNegative)

theorem dividesTo_divide (x y : Binary64) : DividesTo x y (x.divide y) where
  quotient hy := by
    rw [Binary64.divide, hy]
    exact isQuotient_quotient hy
  undefined hy hx := by
    rw [Binary64.divide, if_pos hy, if_pos]
    rwa [Bool.or_eq_true, beq_iff_eq]
  pole := divide_of_isZero

/-! ## Power -/

/-- What raising to a power yields, when the machine's power is this one. -/
structure RaisesTo (pow : Binary64 → Binary64 → Except Trap Binary64) (x y p : Binary64) :
    Prop where
  value : ∀ {z}, pow x y = .ok z → p = z
  /-- Where the machine's power traps, this is exactly for odd powers of a negative sign. -/
  negative : ∀ {t}, pow x y = .error t →
    (p = .infinity true ↔ x.isNegative = true ∧ ∃ n : ℤ, y.Is (2 * n + 1))
  undefined : ∀ {t}, pow x y = .error t → (p = .nan ↔ OutsideReals x y)
  /-- There is no other outcome of a trap. -/
  positive : ∀ {t}, pow x y = .error t → p ≠ .infinity true → p ≠ .nan → p = .infinity false

theorem powerOver_of_ok (h : pow x y = .ok z) : powerOver pow x y = .ok z := by
  rw [powerOver, h]

theorem powerOver_of_overflow (h : pow x y = .error .overflow) (hz : x.isZero = false) :
    powerOver pow x y = .ok (.infinity (x.isNegative && y.isOdd)) := by
  rw [powerOver, h, ← isBelowZero_eq_isNegative hz]
  simp only [isOdd_eq_ok]
  cases x.isBelowZero <;> rfl

theorem powerOver_of_domain (h : pow x y = .error .domain) : powerOver pow x y =
    .ok (if x.isZero then .infinity (x.isNegative && y.isOdd) else .nan) := by
  rw [powerOver, h]
  simp only [isOdd_eq_ok]
  cases x.isZero <;> cases x.isNegative <;> cases y.isOdd <;> rfl

/-- What is put in place of a trap: outside the reals there is no power, and everywhere else it is
infinite, with the sign of the base if the exponent is odd. -/
theorem powerOver_trap (hpow : Machine.IsPower pow) (h : pow x y = .error t) :
    (OutsideReals x y → powerOver pow x y = .ok .nan) ∧
      (¬ OutsideReals x y → powerOver pow x y = .ok (.infinity (x.isNegative && y.isOdd))) := by
  rcases hpow.trap h with rfl | rfl
  · refine ⟨fun ho => ?_, fun _ => powerOver_of_overflow h (hpow.overflow h).2.2⟩
    rw [hpow.outside ho] at h
    cases h
  · rw [powerOver_of_domain h]
    refine ⟨fun ho => ?_, fun ho => ?_⟩
    · rw [isZero_of_isBelowZero ho.2.1, if_neg Bool.false_ne_true]
    · rw [((hpow.domain h).resolve_right ho).1, if_pos rfl]

theorem raisesTo_nan (h : pow x y = .error t) (ho : OutsideReals x y) :
    RaisesTo pow x y .nan where
  value hz := by
    rw [h] at hz
    cases hz
  negative _ := by
    rw [← isOdd_iff, ho.isOdd]
    exact ⟨nofun, fun hn => absurd hn.2 Bool.false_ne_true⟩
  undefined _ := ⟨fun _ => ho, fun _ => rfl⟩
  positive _ _ hn := absurd rfl hn

theorem raisesTo_infinity (h : pow x y = .error t) (ho : ¬ OutsideReals x y) :
    RaisesTo pow x y (.infinity (x.isNegative && y.isOdd)) where
  value hz := by
    rw [h] at hz
    cases hz
  negative _ := by rw [← isOdd_iff, ← Bool.and_eq_true, infinity.injEq]
  undefined _ := ⟨nofun, fun hr => absurd hr ho⟩
  positive _ hp _ := by
    rw [ne_eq, infinity.injEq, Bool.not_eq_true] at hp
    rw [hp]

/-- The power has a value wherever the machine's has, and also where that traps. -/
theorem exists_raisesTo (hpow : Machine.IsPower pow) (x y : Binary64) :
    ∃ p, powerOver pow x y = .ok p ∧ RaisesTo pow x y p := by
  cases h : pow x y with
  | ok z =>
    refine ⟨z, powerOver_of_ok h, fun hz => Except.ok.inj (h.symm.trans hz), ?_, ?_, ?_⟩
    all_goals
      intro t ht
      rw [h] at ht
      cases ht
  | error t =>
    obtain ⟨ho, hn⟩ := powerOver_trap hpow h
    by_cases hr : OutsideReals x y
    · exact ⟨_, ho hr, raisesTo_nan h hr⟩
    · exact ⟨_, hn hr, raisesTo_infinity h hr⟩

/-! ## All operations -/

/-- Division, power and root never trap. Division by a zero is infinite with a sign that follows
both operands, a negative zero included; the power is that of the machine, and where this traps, it
is infinite below zero exactly if the base has a negative sign and the exponent is an odd integer,
undefined outside the reals, and infinite above zero everywhere else; there is no root below
zero. -/
theorem poles_decided (hpow : Machine.IsPower pow) (x y : Binary64) :
    (divide x y = .ok (x.divide y) ∧ DividesTo x y (x.divide y)) ∧
    (∃ p, powerOver pow x y = .ok p ∧ RaisesTo pow x y p) ∧
    powerOver Machine.power x y = .ok (x.power y) ∧
    squareRoot x = .ok x.squareRoot ∧ (x.isBelowZero = true → x.squareRoot = .nan) := by
  refine ⟨⟨divide_eq_ok x y, dividesTo_divide x y⟩, exists_raisesTo hpow x y, ?_,
    squareRoot_eq_ok x, squareRoot_of_isBelowZero⟩
  rw [powerOver_power]
  exact power_eq_ok x y

/-- The power of minus zero to minus three. -/
theorem poles_decided_minus_zero :
    Machine.IsPower Machine.power ∧
      powerOver Machine.power (.finite true 0 representable_zero)
        (.finite true (3 * unitsPerOne) (representable_whole (by decide))) =
        .ok (.infinity true) := by
  have hodd : ∃ n : ℤ,
      Is (2 * n + 1) (.finite true (3 * unitsPerOne) (representable_whole (by decide))) :=
    ⟨-2, true, _, _, rfl, by decide +kernel⟩
  obtain ⟨-, ⟨p, hp, hr⟩, -⟩ := poles_decided Machine.isPower_power
    (.finite true 0 representable_zero)
    (.finite true (3 * unitsPerOne) (representable_whole (by decide)))
  have ht : powerOutcome (.finite true 0 representable_zero)
      (.finite true (3 * unitsPerOne) (representable_whole (by decide))) = .outside := by
    decide +kernel
  rw [(hr.negative (by rw [Machine.power, ht])).mpr ⟨rfl, hodd⟩] at hp
  exact ⟨Machine.isPower_power, hp⟩

end Guarded

end Calculator
