import Calculator.Number.Arithmetic
import Calculator.Proofs.Number.DecimalText
import Calculator.Proofs.Number.Nearest

/-!
# What is shown for a number

A finite number is shown as the nearest count of hundredths. For a number without a fraction this
is the number itself, so the two ways in which a decimal is made for a number show the same rule:

* `Decimal.isShown_ofHundredths`: the text of a count of hundredths has no digit too many;
* `Decimal.valueOf_ofHundredths`: and denotes this count of hundredths;
* `Decimal.shown_finite`: whole numbers are shown as their hundredths would be;
* `Decimal.shown_spec`: what is shown for every number.
-/

namespace Calculator

/-- The exact value of a finite number. -/
def Binary64.toRat : Binary64 → ℚ
  | finite negative units _ => signed negative (units / unitsPerOne)
  | _ => 0

/-- At most two digits after a point, the last of which is not zero. -/
def IsHundredths (fraction : List Char) : Prop :=
  fraction.length ≤ 2 ∧ (∀ c ∈ fraction, c.isDigit = true) ∧ fraction.getLast? ≠ some '0'

/-- A text of the form `-?(0|[1-9][0-9]*)(.[0-9]?[1-9])?`. -/
def IsShown (text : List Char) : Prop :=
  ∃ negative whole fraction, text = decimalText negative whole fraction ∧ IsWhole whole ∧
    IsHundredths fraction

namespace Decimal

open Binary64

/-- The text that is shown for a number. -/
def shown (x : Binary64) : List Char := (ofBinary64 x).plain

variable {negative : Bool} {coefficient hundredths units : Nat} {h : Representable units}

/-! ## Hundredths without trailing zeros -/

theorem stripZeros_mod_ne {count : Nat} (exponent : Int) (hc : 0 < coefficient)
    (hl : coefficient < 10 ^ count) : (stripZeros count coefficient exponent).1 % 10 ≠ 0 := by
  induction count generalizing coefficient exponent with
  | zero => omega
  | succ count ih =>
    unfold stripZeros
    split
    · rw [Nat.pow_succ] at hl
      exact ih (exponent + 1) (by omega) (by omega)
    · assumption

/-- A count of hundredths other than zero is a coefficient that ends in another digit than zero,
and some zeros. -/
theorem exists_ofHundredths (negative : Bool) (hh : 0 < hundredths) :
    ∃ (coefficient zeros : Nat),
      ofHundredths negative hundredths = finite negative coefficient (-2 + zeros) ∧
      coefficient * 10 ^ zeros = hundredths ∧ coefficient % 10 ≠ 0 := by
  have hl : hundredths < 10 ^ (Nat.toDigits 10 hundredths).length :=
    (Nat.length_toDigits_le_iff (by decide) Nat.length_toDigits_pos).mp (Nat.le_refl _)
  obtain ⟨zeros, he, hv⟩ := stripZeros_value (Nat.toDigits 10 hundredths).length hundredths (-2)
  refine ⟨_, zeros, ?_, hv, stripZeros_mod_ne (-2) hh hl⟩
  rw [ofHundredths, if_neg (by omega), ← he]

theorem plain_zero : plain zero = ['0'] := by decide

theorem valueOf_zero (negative : Bool) : valueOf (decimalText negative ['0'] []) = 0 := by
  have hd : Nat.ofDigitChars 10 ['0'] 0 = 0 := by decide
  rw [valueOf_decimalText (.inl rfl), List.append_nil, hd]
  cases negative <;> simp [signed]

theorem valueOf_ofHundredths (negative : Bool) (hundredths : Nat) :
    valueOf (plain (ofHundredths negative hundredths)) = signed negative (hundredths / 100) := by
  rcases Nat.eq_zero_or_pos hundredths with rfl | hh
  · rw [ofHundredths, if_pos rfl, plain_zero, show ['0'] = decimalText false ['0'] [] from rfl,
      valueOf_zero]
    cases negative <;> simp [signed]
  · obtain ⟨coefficient, zeros, he, hv, -⟩ := exists_ofHundredths negative hh
    rw [he, valueOf_plain, ← hv, zpow_add₀ (by norm_num), zpow_natCast]
    congr 1
    push_cast
    field_simp
    norm_num

theorem isShown_ofHundredths (negative : Bool) (hundredths : Nat) :
    IsShown (plain (ofHundredths negative hundredths)) := by
  rcases Nat.eq_zero_or_pos hundredths with rfl | hh
  · rw [ofHundredths, if_pos rfl, plain_zero]
    exact ⟨false, ['0'], [], rfl, .inl rfl, by simp [IsHundredths]⟩
  · obtain ⟨coefficient, zeros, he, -, hm⟩ := exists_ofHundredths negative hh
    obtain ⟨whole, fraction, hd, hp⟩ := exists_digits coefficient (-2 + zeros)
    refine ⟨negative, whole, fraction, by rw [he, hp], hd.isWhole, ?_, hd.isDigit, fun hz => ?_⟩
    · have hl := hd.length
      omega
    · exact hm (Nat.digitChar_eq_zero.mp (hd.last _ hz).symm)

/-- A count of whole hundreds is written as the whole number. -/
theorem plain_ofHundredths_mul (negative : Bool) (whole : Nat) :
    plain (ofHundredths negative (whole * 100)) =
      plain (finite (negative && whole != 0) whole 0) := by
  rcases Nat.eq_zero_or_pos whole with rfl | hw
  · cases negative <;> rfl
  · have hh : 0 < whole * 100 := by omega
    obtain ⟨coefficient, zeros, he, hv, hm⟩ := exists_ofHundredths negative hh
    obtain _ | _ | zeros := zeros
    · omega
    · omega
    · have hc : coefficient * 10 ^ zeros = whole := by
        rw [Nat.pow_succ, Nat.pow_succ, ← Nat.mul_assoc, ← Nat.mul_assoc] at hv
        omega
      have hn : (negative && whole != 0) = negative := by
        rw [show (whole != 0) = true from bne_iff_ne.mpr hw.ne', Bool.and_true]
      have hz : (-2 + ((zeros + 1 + 1 : Nat) : Int)) = Int.ofNat zeros := by
        simp only [Int.ofNat_eq_natCast]
        omega
      rw [he, hz, hn, plain, plain, plainMagnitude, hc, show (0 : Int) = Int.ofNat 0 from rfl,
        plainMagnitude, Nat.pow_zero, Nat.mul_one]

/-! ## Numbers -/

/-- The count of hundredths nearest to a count of units. -/
def hundredthsOf (units : Nat) : Nat := roundHalfEven (units * 100) unitsPerOne

/-- A number without a fraction is shown as its hundredths would be. -/
theorem shown_finite (negative : Bool) (units : Nat) (h : Representable units) :
    shown (.finite negative units h) = plain (ofHundredths negative (hundredthsOf units)) := by
  by_cases hi : units % unitsPerOne = 0
  · have hd : unitsPerOne ∣ units := Nat.dvd_of_mod_eq_zero hi
    have hw : hundredthsOf units = units / unitsPerOne * 100 := by
      rw [hundredthsOf, roundHalfEven_eq_div unitsPerOne_pos (Nat.dvd_mul_right_of_dvd hd 100),
        Nat.div_mul_right_comm hd]
    rw [shown, ofBinary64_of_isInteger hi, hw, plain_ofHundredths_mul]
  · rw [shown, ofBinary64, if_neg hi]
    rfl

theorem signed_mul (negative : Bool) (a b : ℚ) :
    signed negative a * b = signed negative (a * b) := by
  cases negative
  · rfl
  · exact neg_mul a b

theorem signed_intCast (negative : Bool) (n : Nat) :
    ((signedUnits negative n : Int) : ℚ) = signed negative n := by
  cases negative <;> simp [signedUnits, signed]

theorem eq_zero_of_signedUnits {n : Nat} (h : signedUnits negative n = 0) : n = 0 := by
  unfold signedUnits at h
  split at h <;> omega

/-- The hundredths that are shown are those nearest to the number. -/
theorem isNearestMultiple_hundredthsOf (negative : Bool) (units : Nat) (h : Representable units) :
    IsNearestMultiple (1 / 100) (Binary64.toRat (.finite negative units h))
      (signedUnits negative (hundredthsOf units)) := by
  have hs : (0 : ℚ) < 1 / 100 := by norm_num
  have hn := isNearestMultiple_roundHalfEven (units * 100) unitsPerOne_pos hs
  have hv : ((units * 100 : Nat) : ℚ) / unitsPerOne * (1 / 100) = units / unitsPerOne := by
    push_cast
    ring
  rw [hv] at hn
  cases negative with
  | false => exact hn
  | true => exact hn.neg

/-- What is shown for a finite number is a text of a count of hundredths, the nearest to the
number, and for no hundredths at all it is zero. -/
theorem exists_hundredths {x : Binary64} (hx : x.isFinite = true) :
    ∃ n : ℤ, IsNearestMultiple (1 / 100) x.toRat n ∧ IsShown (shown x) ∧
      valueOf (shown x) = n * (1 / 100) ∧ (n = 0 → shown x = ['0']) := by
  cases x with
  | nan | infinity => cases hx
  | finite negative units h =>
    refine ⟨_, isNearestMultiple_hundredthsOf negative units h, ?_, ?_, fun hz => ?_⟩
    · rw [shown_finite]
      exact isShown_ofHundredths negative _
    · rw [shown_finite, valueOf_ofHundredths, signed_intCast, signed_mul, div_eq_mul_one_div]
    · rw [shown_finite, eq_zero_of_signedUnits hz, ofHundredths, if_pos rfl, plain_zero]

/-- Undefined and infinite numbers are shown by name. A finite number is shown without an exponent,
without superfluous digits, and never as minus zero; a whole number as it is, and any other as the
nearest count of hundredths, a tie going to the even one. What rounds to zero is shown as zero. -/
theorem shown_spec (x : Binary64) :
    shown .nan = "NaN".toList ∧ shown (.infinity false) = "Infinity".toList ∧
    shown (.infinity true) = "-Infinity".toList ∧
    (x.isFinite = true →
      IsShown (shown x) ∧ shown x ≠ ['-', '0'] ∧
      (∀ k : ℤ, x.toRat = k → valueOf (shown x) = k) ∧
      (∃ n : ℤ, valueOf (shown x) = n * (1 / 100) ∧ IsNearestMultiple (1 / 100) x.toRat n) ∧
      (|x.toRat| ≤ 1 / 200 → shown x = ['0'])) := by
  refine ⟨rfl, rfl, rfl, fun hx => ?_⟩
  obtain ⟨n, hn, hs, hv, hz⟩ := exists_hundredths hx
  have hstep : (0 : ℚ) < 1 / 100 := by norm_num
  refine ⟨hs, fun hm => ?_, fun k hk => ?_, ⟨n, hv, hn⟩, fun ha => hz ?_⟩
  · -- Its value is zero, and for that zero is shown.
    rw [hm, show ['-', '0'] = decimalText true ['0'] [] from rfl, valueOf_zero, eq_comm,
       mul_eq_zero, Int.cast_eq_zero] at hv
    rw [hz (hv.resolve_right hstep.ne')] at hm
    cases hm
  · have he : x.toRat = (k * 100 : ℤ) * (1 / 100) := by
      rw [hk]
      push_cast
      ring
    rw [hv, hn.unique hstep (isNearestMultiple_of_eq hstep he), ← he, hk]
  · have hzero : IsNearestMultiple (1 / 100) x.toRat 0 := by
      refine isNearestMultiple_of_le_half hstep ?_ fun _ => Even.zero
      rw [Int.cast_zero, zero_mul, zero_sub, abs_neg]
      linarith
    exact hn.unique hstep hzero

-- One eighth lies between two hundredths, and the even one is shown.
example : shown (ofUnits false (unitsPerOne / 8)) = ['0', '.', '1', '2'] := by decide +kernel

end Decimal

end Calculator
