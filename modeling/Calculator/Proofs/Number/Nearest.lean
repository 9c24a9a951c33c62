import Calculator.Number.Rounding
import Mathlib.Algebra.Order.Field.Basic
import Mathlib.Algebra.Order.Field.Rat
import Mathlib.Algebra.Order.Ring.Abs
import Mathlib.Algebra.Ring.Parity
import Mathlib.Tactic.FieldSimp
import Mathlib.Tactic.Linarith
import Mathlib.Tactic.Ring

/-!
# The nearest multiple

What it means to round a value to a multiple of a step: no other multiple is nearer, and if another
one is as near, the count of steps is even.

* `isNearestMultiple_of_le_half`: to be within half a step is enough;
* `IsNearestMultiple.unique`: one multiple at most is nearest;
* `isNearestMultiple_roundHalfEven`: `roundHalfEven` rounds in this sense.
-/

namespace Calculator

/-- The multiple of the step is nearest to the value, and an even one if another is as near. -/
def IsNearestMultiple (step value : ℚ) (n : ℤ) : Prop :=
  ∀ other : ℤ, other ≠ n →
    |n * step - value| < |other * step - value| ∨
      |n * step - value| = |other * step - value| ∧ Even n

variable {step value : ℚ} {n : ℤ}

theorem isNearestMultiple_of_le_half (hs : 0 < step) (h : |n * step - value| ≤ step / 2)
    (ht : |n * step - value| = step / 2 → Even n) : IsNearestMultiple step value n := by
  intro other hne
  have hi : (1 : ℤ) ≤ |other - n| := Int.one_le_abs (sub_ne_zero.mpr hne)
  have hd : step ≤ |(other * step - value) - (n * step - value)| := by
    have hr : (1 : ℚ) ≤ |(other : ℚ) - n| := by exact_mod_cast hi
    have he : (other * step - value) - (n * step - value) = (other - n) * step := by ring
    rw [he, abs_mul, abs_of_pos hs]
    exact le_mul_of_one_le_left hs.le hr
  have hle := abs_sub (other * step - value) (n * step - value)
  rcases lt_or_eq_of_le h with hlt | he
  · left
    linarith
  · have hle : |n * step - value| ≤ |other * step - value| := by linarith
    rcases lt_or_eq_of_le hle with hl | hl
    · exact .inl hl
    · exact .inr ⟨hl, ht he⟩

theorem IsNearestMultiple.neg (h : IsNearestMultiple step value n) :
    IsNearestMultiple step (-value) (-n) := by
  have hd : ∀ k : ℤ, |((-k : ℤ) : ℚ) * step - -value| = |k * step - value| := by
    intro k
    rw [← abs_neg]
    congr 1
    push_cast
    ring
  intro other hne
  have ho := h (-other) fun e => hne (by rw [← e, neg_neg])
  rw [hd n, even_neg, ← neg_neg other, hd (-other)]
  exact ho

theorem isNearestMultiple_of_eq (hs : 0 < step) (h : value = n * step) :
    IsNearestMultiple step value n := by
  have hz : |n * step - value| = 0 := by rw [h, sub_self, abs_zero]
  refine isNearestMultiple_of_le_half hs ?_ fun ht => ?_
  · rw [hz]
    exact (half_pos hs).le
  · rw [hz] at ht
    exact absurd ht (half_pos hs).ne

/-- No two multiples are nearest: two even ones that are equally near have the value between them,
and then one is there that is nearer. -/
theorem IsNearestMultiple.unique (hs : 0 < step) (hn : IsNearestMultiple step value n) {m : ℤ}
    (hm : IsNearestMultiple step value m) : n = m := by
  have hinj : ∀ {k : ℤ}, (n : ℚ) * step = k * step → n = k := fun h => by
    exact_mod_cast mul_right_cancel₀ hs.ne' h
  by_contra hne
  rcases hn m (Ne.symm hne) with hl | ⟨he, a, ha⟩
  · rcases hm n hne with hg | ⟨hg, -⟩ <;> linarith
  rcases hm n hne with hg | ⟨-, b, hb⟩
  · linarith
  rcases abs_eq_abs.mp he with h | h
  · exact hne (hinj (by linarith))
  · have hv : ((a + b : ℤ) : ℚ) * step = value := by
      have hc : ((n : ℚ) + m) * step = 2 * ((a + b : ℤ) * step) := by
        rw [ha, hb]
        push_cast
        ring
      linarith
    have hk : a + b ≠ n := by omega
    rcases hn (a + b) hk with hl | ⟨he, -⟩
    · rw [hv, sub_self, abs_zero] at hl
      exact absurd hl (not_lt.mpr (abs_nonneg _))
    · rw [hv, sub_self, abs_zero, abs_eq_zero, sub_eq_zero] at he
      exact hk (hinj (he.trans hv.symm)).symm

/-- Twice the distance of the rounded quotient from the quotient is at most one divisor, and if it
is one divisor, the rounded quotient is even. -/
theorem roundHalfEven_bounds (num : Nat) {den : Nat} (hden : 0 < den) :
    2 * num ≤ 2 * (roundHalfEven num den * den) + den ∧
      2 * (roundHalfEven num den * den) ≤ 2 * num + den ∧
      (2 * num = 2 * (roundHalfEven num den * den) + den ∨
        2 * (roundHalfEven num den * den) = 2 * num + den → roundHalfEven num den % 2 = 0) := by
  have hq := Nat.div_add_mod' num den
  have hr := Nat.mod_lt num hden
  have hs : (num / den + 1) * den = num / den * den + den := Nat.succ_mul _ _
  unfold roundHalfEven
  dsimp only
  split_ifs with hlt hgt
  · omega
  · rw [hs]
    omega
  · rcases Nat.mod_two_eq_zero_or_one (num / den) with hp | hp
    · rw [hp, Nat.add_zero]
      omega
    · rw [hp, hs]
      omega

/-- Rounding a quotient of whole numbers rounds any multiple of it to a multiple of the step. -/
theorem isNearestMultiple_roundHalfEven (num : Nat) {den : Nat} (hden : 0 < den) (hs : 0 < step) :
    IsNearestMultiple step (num / den * step) (roundHalfEven num den) := by
  obtain ⟨hl, hu, ht⟩ := roundHalfEven_bounds num hden
  generalize roundHalfEven num den = n at hl hu ht
  have hd : (0 : ℚ) < den := by exact_mod_cast hden
  have hl' : 2 * (num : ℚ) ≤ 2 * (n * den) + den := by exact_mod_cast hl
  have hu' : 2 * ((n : ℚ) * den) ≤ 2 * num + den := by exact_mod_cast hu
  -- The distance is counted in halves of the step, each of which is one divisor.
  have he : |((n : ℤ) : ℚ) * step - num / den * step| =
      |2 * ((n : ℚ) * den) - 2 * num| / den * (step / 2) := by
    have hc : ((n : ℤ) : ℚ) * step - num / den * step =
        (2 * ((n : ℚ) * den) - 2 * num) / den * (step / 2) := by
      push_cast
      field_simp
    rw [hc, abs_mul, abs_div, abs_of_pos hd, abs_of_pos (half_pos hs)]
  have ha : |2 * ((n : ℚ) * den) - 2 * num| ≤ den := abs_le.mpr ⟨by linarith, by linarith⟩
  refine isNearestMultiple_of_le_half hs ?_ fun h => ?_
  · rw [he]
    exact mul_le_of_le_one_left (half_pos hs).le ((div_le_one hd).mpr ha)
  · rw [he, mul_eq_right₀ (half_pos hs).ne', div_eq_one_iff_eq hd.ne', abs_eq hd.le] at h
    have hp : n % 2 = 0 := by
      refine ht (h.symm.imp (fun h => ?_) fun h => ?_)
      · exact_mod_cast (by linarith : 2 * (num : ℚ) = 2 * (n * den) + den)
      · exact_mod_cast (by linarith : 2 * ((n : ℚ) * den) = 2 * num + den)
    exact_mod_cast Nat.even_iff.mpr hp

end Calculator
