import Calculator.Number.Arithmetic
import Calculator.Proofs.Number.Closest
import Calculator.Proofs.Number.Shown
import Mathlib.Data.Nat.Log

/-!
# Correctly rounded quotients

What it means that a number is the quotient of two others: its sign follows both, and its magnitude
is the one nearest to the exact quotient, were there no greatest one; an infinity stands for a
magnitude that is too large. An infinite or undefined operand is a case of its own.

* `Binary64.IsNearestUnits.unique`, `Binary64.IsQuotient.unique`: one magnitude at most is nearest,
  so there is one quotient at most;
* `Binary64.isRounded_ofRatio`: what is computed for a quotient of whole numbers is that quotient
  rounded;
* `Binary64.isQuotient_quotient`: what is computed for two numbers is their quotient.
-/

namespace Calculator

namespace Binary64

/-- The magnitude is nearest to a value in units, and its last binary digit is zero if another one
is as near. -/
def IsNearestUnits (value : ℚ) (units : Nat) : Prop :=
  spacing units ∣ units ∧ ∀ other : Nat, spacing other ∣ other → other ≠ units →
    |(units : ℚ) - value| < |(other : ℚ) - value| ∨
      |(units : ℚ) - value| = |(other : ℚ) - value| ∧ Even (units / spacing units)

/-- The number has the sign, and the magnitude nearest to the value; one that is too large is
infinite. -/
inductive IsRounded (negative : Bool) (value : ℚ) : Binary64 → Prop
  | inRange {units : Nat} (h : Representable units)
      (hn : IsNearestUnits (value * unitsPerOne) units) :
      IsRounded negative value (finite negative units h)
  | tooLarge {units : Nat} (h : overflowUnits ≤ units)
      (hn : IsNearestUnits (value * unitsPerOne) units) :
      IsRounded negative value (infinity negative)

/-- The number is the quotient of the two, of which the second is not zero. -/
inductive IsQuotient : Binary64 → Binary64 → Binary64 → Prop
  | nanLeft (y : Binary64) : IsQuotient nan y nan
  | nanRight (x : Binary64) : IsQuotient x nan nan
  | infinities (s t : Bool) : IsQuotient (infinity s) (infinity t) nan
  | ofInfinity (s : Bool) {y : Binary64} (hy : y.isFinite = true) :
      IsQuotient (infinity s) y (infinity (s != y.isNegative))
  | byInfinity {x : Binary64} (hx : x.isFinite = true) (t : Bool) :
      IsQuotient x (infinity t) (finite (x.isNegative != t) 0 representable_zero)
  | rounded {x y q : Binary64} (hx : x.isFinite = true) (hy : y.isFinite = true)
      (hq : IsRounded (x.isNegative != y.isNegative) |x.toRat / y.toRat| q) : IsQuotient x y q

variable {value : ℚ} {m n num den : Nat}

/-! ## Uniqueness -/

theorem spacing_dvd_spacing (h : m ≤ n) : spacing m ∣ spacing n := by
  refine Nat.pow_dvd_pow 2 (Nat.sub_le_sub_right ?_ 52)
  rw [Nat.log2_eq_log_two, Nat.log2_eq_log_two]
  exact Nat.log_mono_right h

/-- The next greater magnitude. -/
theorem spacing_dvd_add_spacing (h : spacing m ∣ m) : spacing (m + spacing m) ∣ m + spacing m := by
  have hm : m + spacing m = (m / spacing m + 1) * spacing m := by
    rw [Nat.add_mul, Nat.div_mul_cancel h, Nat.one_mul]
  rw [hm]
  exact spacing_dvd_mul_two_pow _ (div_spacing_lt m)

/-- Of two neighbours one has an odd last binary digit. -/
theorem not_even_neighbours (hm : spacing m ∣ m) (hn : spacing (m + spacing m) ∣ m + spacing m)
    (he : Even (m / spacing m)) :
    ¬ Even ((m + spacing m) / spacing (m + spacing m)) := by
  rintro ⟨b, hb⟩
  obtain ⟨a, ha⟩ := he
  obtain ⟨c, hc⟩ := spacing_dvd_spacing (Nat.le_add_right m (spacing m))
  rw [Nat.div_eq_iff_eq_mul_left (spacing_pos _) hm] at ha
  rw [Nat.div_eq_iff_eq_mul_left (spacing_pos _) hn, hc] at hb
  have h : (a + a + 1) * spacing m = 2 * (b * c) * spacing m := by
    rw [Nat.succ_mul, ← ha, hb]
    ring
  have hp := Nat.eq_of_mul_eq_mul_right (spacing_pos m) h
  omega

theorem IsNearestUnits.abs_le (h : IsNearestUnits value m) (hn : spacing n ∣ n) :
    |(m : ℚ) - value| ≤ |(n : ℚ) - value| := by
  rcases eq_or_ne n m with rfl | hne
  · exact le_refl _
  · exact (h.2 n hn hne).elim le_of_lt fun h => le_of_eq h.1

theorem IsNearestUnits.not_lt (hm : IsNearestUnits value m) (hn : IsNearestUnits value n) :
    ¬ m < n := by
  intro hlt
  have hd : |(m : ℚ) - value| = |(n : ℚ) - value| := le_antisymm (hm.abs_le hn.1) (hn.abs_le hm.1)
  have hem : Even (m / spacing m) := ((hm.2 n hn.1 hlt.ne').resolve_left hd.not_lt).2
  have hen : Even (n / spacing n) := ((hn.2 m hm.1 hlt.ne).resolve_left hd.symm.not_lt).2
  have hq : (m : ℚ) < n := by exact_mod_cast hlt
  -- The value is in the middle, so a magnitude between the two would be nearer.
  have hv : value - m = n - value := by
    rcases abs_eq_abs.mp hd with h | h <;> linarith
  have hle : n ≤ m + spacing m := by
    by_contra hgt
    have ho := hm.abs_le (spacing_dvd_add_spacing hm.1)
    have hl : (m : ℚ) < (m + spacing m : Nat) := by
      exact_mod_cast Nat.lt_add_of_pos_right (spacing_pos m)
    have hg : ((m + spacing m : Nat) : ℚ) < n := by exact_mod_cast Nat.lt_of_not_le hgt
    rw [abs_sub_comm, abs_of_pos (by linarith : 0 < value - m)] at ho
    exact absurd ho (not_le.mpr (abs_lt.mpr ⟨by linarith, by linarith⟩))
  have hs : spacing m ∣ n - m := Nat.dvd_sub ((spacing_dvd_spacing hlt.le).trans hn.1) hm.1
  have hge : spacing m ≤ n - m := Nat.le_of_dvd (by omega) hs
  obtain rfl : n = m + spacing m := by omega
  exact not_even_neighbours hm.1 hn.1 hem hen

/-- No two magnitudes are nearest. -/
theorem IsNearestUnits.unique (hm : IsNearestUnits value m) (hn : IsNearestUnits value n) :
    m = n :=
  Nat.le_antisymm (Nat.le_of_not_lt (hn.not_lt hm)) (Nat.le_of_not_lt (hm.not_lt hn))

theorem IsRounded.unique {negative : Bool} {x y : Binary64} (hx : IsRounded negative value x)
    (hy : IsRounded negative value y) : x = y := by
  cases hx with
  | inRange hr hn =>
    cases hy with
    | inRange hr' hn' => simp only [hn.unique hn']
    | tooLarge hl hn' => exact absurd hr.2 (hn.unique hn' ▸ Nat.not_lt.mpr hl)
  | tooLarge hl hn =>
    cases hy with
    | inRange hr hn' => exact absurd hr.2 (hn'.unique hn ▸ Nat.not_lt.mpr hl)
    | tooLarge hl' hn' => rfl

/-- Two numbers have at most one quotient. -/
theorem IsQuotient.unique {x y p q : Binary64} (hp : IsQuotient x y p) (hq : IsQuotient x y q) :
    p = q := by
  cases hp <;> cases hq
  case rounded.rounded hr _ _ hr' => exact hr.unique hr'
  -- In every other case an operand is infinite or undefined.
  all_goals first | rfl | contradiction

/-! ## Quotients of whole numbers -/

theorem natCast_dist (m n : Nat) : ((Nat.dist m n : Nat) : ℚ) = |(m : ℚ) - n| := by
  have hd : Nat.dist m n = ((m : ℤ) - n).natAbs := by
    rw [Nat.dist]
    omega
  rw [hd, Nat.cast_natAbs, Int.cast_abs, Int.cast_sub, Int.cast_natCast, Int.cast_natCast]

/-- The distance from a quotient, counted in parts of one that the divisor names. -/
theorem abs_sub_div (n num : Nat) (hden : 0 < den) :
    |(n : ℚ) - num / den| = (Nat.dist (n * den) num : ℚ) / den := by
  have hd : (0 : ℚ) < den := by exact_mod_cast hden
  have he : (n : ℚ) - num / den = (n * den - num) / den := by
    rw [sub_div, mul_div_cancel_right₀ _ hd.ne']
  rw [he, abs_div, abs_of_pos hd, natCast_dist, Nat.cast_mul]

theorem isNearestUnits_roundUnits (num : Nat) (hden : 0 < den) :
    IsNearestUnits (num / den) (roundUnits num den) := by
  have hd : (0 : ℚ) < den := by exact_mod_cast hden
  refine ⟨spacing_dvd_roundUnits num den, fun other hs hne => ?_⟩
  rw [abs_sub_div _ _ hden, abs_sub_div _ _ hden, div_lt_div_iff_of_pos_right hd,
    div_left_inj' hd.ne', Nat.cast_lt, Nat.cast_inj]
  exact dist_roundUnits_lt_or num hden hs hne

theorem isRounded_ofRatio (negative : Bool) (hden : 0 < den)
    (h : value * unitsPerOne = num / den) :
    IsRounded negative value (ofRatio negative num den) := by
  have hn := isNearestUnits_roundUnits num hden
  rw [← h] at hn
  by_cases hr : roundUnits num den < overflowUnits
  · rw [ofRatio, dif_pos hr]
    exact .inRange _ hn
  · rw [ofRatio, dif_neg hr]
    exact .tooLarge (Nat.le_of_not_lt hr) hn

/-! ## Quotients of numbers -/

theorem abs_toRat (negative : Bool) (units : Nat) (h : Representable units) :
    |(finite negative units h).toRat| = units / unitsPerOne := by
  have hv : (0 : ℚ) ≤ units / unitsPerOne := div_nonneg (Nat.cast_nonneg _) (Nat.cast_nonneg _)
  rw [toRat, signed]
  cases negative
  · exact abs_of_nonneg hv
  · rw [if_pos rfl, abs_neg, abs_of_nonneg hv]

theorem isQuotient_quotient {x y : Binary64} (hy : y.isZero = false) :
    IsQuotient x y (x.quotient y) := by
  cases x with
  | nan => exact .nanLeft y
  | infinity s =>
    cases y with
    | nan => exact .nanRight _
    | infinity t => exact .infinities s t
    | finite t n h => exact .ofInfinity s rfl
  | finite s m hm =>
    cases y with
    | nan => exact .nanRight _
    | infinity t => exact .byInfinity rfl t
    | finite t n hn =>
      have hz : 0 < n := Nat.pos_of_ne_zero fun h0 => by simp [isZero, h0] at hy
      refine .rounded rfl rfl (isRounded_ofRatio _ hz ?_)
      have hu : (unitsPerOne : ℚ) ≠ 0 := Nat.cast_ne_zero.mpr unitsPerOne_pos.ne'
      rw [abs_div, abs_toRat, abs_toRat, div_div_div_cancel_right₀ hu, div_mul_eq_mul_div,
        Nat.cast_mul]

end Binary64

end Calculator
