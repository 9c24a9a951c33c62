import Calculator.Number.Binary64
import Calculator.Proofs.Number.Nearest
import Mathlib.Data.Nat.Dist

/-!
# The number closest to a quotient

Rounding keeps 53 binary digits, so how far it moves a quotient depends on how
large the quotient is. Whatever the size, no number is closer to the quotient
than the one to which it is rounded, and a quotient written with another
denominator is rounded alike:

* `dist_roundHalfEven_le`, `roundHalfEven_eq_of_dist`: the same for multiples
  of a single step, and when a multiple is the rounded one;
* `Binary64.roundUnits_congr`: equal quotients;
* `Binary64.dist_roundUnits_lt_or`, `Binary64.dist_roundUnits_le`: no number is
  closer, and the rounded one is even if another is as close.
-/

namespace Calculator

variable {num den n : Nat}

/-! ## Multiples of one step -/

/-- The steps between two multiples are no longer than the way over any other number. -/
theorem dist_mul_le (m n num den : Nat) :
    Nat.dist m n * den ≤ Nat.dist (m * den) num + Nat.dist (n * den) num := by
  rw [← Nat.dist_mul_right, Nat.dist_comm (n * den)]
  exact Nat.dist.triangle_inequality _ _ _

theorem two_mul_dist_roundHalfEven (num : Nat) (hden : 0 < den) :
    2 * Nat.dist (roundHalfEven num den * den) num ≤ den ∧
      (2 * Nat.dist (roundHalfEven num den * den) num = den → roundHalfEven num den % 2 = 0) := by
  obtain ⟨hl, hu, ht⟩ := roundHalfEven_bounds num hden
  simp only [Nat.dist]
  exact ⟨by omega, fun h => ht (by omega)⟩

/-- Another multiple is farther away, or as far, and then the rounded one is even. -/
theorem dist_roundHalfEven_lt_or (num : Nat) (hden : 0 < den) (hne : n ≠ roundHalfEven num den) :
    Nat.dist (roundHalfEven num den * den) num < Nat.dist (n * den) num ∨
      Nat.dist (roundHalfEven num den * den) num = Nat.dist (n * den) num ∧
        roundHalfEven num den % 2 = 0 := by
  have hs := dist_mul_le n (roundHalfEven num den) num den
  have hp : 0 < Nat.dist n (roundHalfEven num den) := Nat.dist_pos_of_ne hne
  have hle : den ≤ Nat.dist n (roundHalfEven num den) * den := Nat.le_mul_of_pos_left den hp
  obtain ⟨hh, ht⟩ := two_mul_dist_roundHalfEven num hden
  omega

theorem dist_roundHalfEven_le (num n : Nat) (hden : 0 < den) :
    Nat.dist (roundHalfEven num den * den) num ≤ Nat.dist (n * den) num := by
  rcases eq_or_ne n (roundHalfEven num den) with rfl | hne
  · exact Nat.le_refl _
  · exact (dist_roundHalfEven_lt_or num hden hne).elim Nat.le_of_lt fun h => Nat.le_of_eq h.1

/-- A multiple no farther than half a step away is the rounded one, if it is even where it is just
half a step away. -/
theorem roundHalfEven_eq_of_dist (hden : 0 < den) (h : 2 * Nat.dist (n * den) num ≤ den)
    (ht : 2 * Nat.dist (n * den) num = den → n % 2 = 0) : roundHalfEven num den = n := by
  by_contra hne
  obtain ⟨hh, he⟩ := two_mul_dist_roundHalfEven num hden
  have hs := dist_mul_le (roundHalfEven num den) n num den
  have hp : 0 < Nat.dist (roundHalfEven num den) n := Nat.dist_pos_of_ne hne
  -- The two are one step apart, so each is half a step away; but then both are even.
  have hle : Nat.dist (roundHalfEven num den) n ≤ 1 := by
    refine Nat.le_of_mul_le_mul_right (c := den) ?_ hden
    omega
  have hone : Nat.dist (roundHalfEven num den) n = 1 := by omega
  rw [hone, Nat.one_mul] at hs
  have hn := ht (by omega)
  have hm := he (by omega)
  simp only [Nat.dist] at hone
  omega

theorem roundHalfEven_mul_right (num : Nat) {den k : Nat} (hk : 0 < k) :
    roundHalfEven (num * k) (den * k) = roundHalfEven num den := by
  have hl : ∀ a b, 2 * (a * k) < b * k ↔ 2 * a < b := fun a b => by
    rw [← Nat.mul_assoc]
    exact Nat.mul_lt_mul_right hk
  have hr : ∀ a b, b * k < 2 * (a * k) ↔ b < 2 * a := fun a b => by
    rw [← Nat.mul_assoc]
    exact Nat.mul_lt_mul_right hk
  simp only [roundHalfEven, Nat.mul_div_mul_right _ _ hk, Nat.mul_mod_mul_right, hl, hr]

namespace Binary64

variable {units : Nat}

/-! ## Numbers -/

theorem roundUnits_mul_right (num : Nat) {den k : Nat} (hk : 0 < k) :
    roundUnits (num * k) (den * k) = roundUnits num den := by
  rw [roundUnits, roundUnits, Nat.mul_div_mul_right _ _ hk, Nat.mul_right_comm,
    roundHalfEven_mul_right num hk]

/-- Equal quotients are rounded alike. -/
theorem roundUnits_congr {num' den' : Nat} (hden : 0 < den) (hden' : 0 < den')
    (h : num * den' = num' * den) : roundUnits num den = roundUnits num' den' := by
  rw [← roundUnits_mul_right num hden', h, Nat.mul_comm den, roundUnits_mul_right num' hden]

/-- Where numbers lie denser around a magnitude than around a greater one, a power of two stands
between the two. -/
theorem exists_between (hs : spacing units ∣ units) {q : Nat} (h : ¬ spacing q ∣ units) :
    ∃ b, spacing q ∣ b ∧ units ≤ b ∧ b ≤ q := by
  have hq : q ≠ 0 := by
    rintro rfl
    exact h (Nat.one_dvd units)
  have hlog : units.log2 < q.log2 := by
    by_contra hle
    exact h ((Nat.pow_dvd_pow 2 (by omega)).trans hs)
  refine ⟨2 ^ q.log2, Nat.pow_dvd_pow 2 (Nat.sub_le _ _), ?_, Nat.log2_self_le hq⟩
  refine Nat.le_of_lt (Nat.lt_of_lt_of_le Nat.lt_log2_self ?_)
  exact Nat.pow_le_pow_right (by decide) hlog

/-- The last binary digit of an even multiple of a power of two is zero, if the multiple has no more
binary digits than are kept. -/
theorem even_div_spacing {m s : Nat} (hm : m ≤ 2 ^ 53) (he : Even m) :
    Even (m * 2 ^ s / spacing (m * 2 ^ s)) := by
  rcases Nat.lt_or_eq_of_le hm with hlt | rfl
  · have hj : (m * 2 ^ s).log2 - 52 ≤ s := by
      rcases Nat.eq_zero_or_pos (m * 2 ^ s) with hz | hp
      · rw [hz]
        exact Nat.zero_le _
      · have hlog : (m * 2 ^ s).log2 < 53 + s := by
          rw [Nat.log2_lt hp.ne', Nat.pow_add]
          exact Nat.mul_lt_mul_of_pos_right hlt (Nat.two_pow_pos s)
        omega
    rw [spacing]
    generalize (m * 2 ^ s).log2 - 52 = j at hj
    rw [← Nat.pow_sub_mul_pow 2 hj, ← Nat.mul_assoc, Nat.mul_div_cancel _ (Nat.two_pow_pos j)]
    exact he.mul_right _
  · rw [← Nat.pow_add, spacing, Nat.log2_two_pow, Nat.pow_div (by omega) (by decide)]
    exact (Nat.even_pow.mpr ⟨even_two, by omega⟩)

theorem roundUnits_mul_den (num den : Nat) : roundUnits num den * den =
    roundHalfEven num (den * spacing (num / den)) * (den * spacing (num / den)) := by
  rw [roundUnits, Nat.mul_assoc, Nat.mul_comm (spacing _)]

/-- Another number is farther from a quotient than the one to which the quotient is rounded, or as
far, and then the last binary digit of the rounded one is zero. -/
theorem dist_roundUnits_lt_or (num : Nat) (hden : 0 < den) (hs : spacing units ∣ units)
    (hne : units ≠ roundUnits num den) :
    Nat.dist (roundUnits num den * den) num < Nat.dist (units * den) num ∨
      Nat.dist (roundUnits num den * den) num = Nat.dist (units * den) num ∧
        Even (roundUnits num den / spacing (roundUnits num den)) := by
  have hstep : 0 < den * spacing (num / den) := Nat.mul_pos hden (spacing_pos _)
  have hmul : ∀ k, k * spacing (num / den) * den = k * (den * spacing (num / den)) := fun k => by
    rw [Nat.mul_assoc, Nat.mul_comm (spacing _)]
  rw [roundUnits_mul_den]
  by_cases hd : spacing (num / den) ∣ units
  · obtain ⟨k, rfl⟩ := exists_eq_mul_left_of_dvd hd
    rw [hmul]
    have hk : k ≠ roundHalfEven num (den * spacing (num / den)) := by
      rintro rfl
      exact hne rfl
    have hle : roundHalfEven num (den * spacing (num / den)) ≤ 2 ^ 53 := by
      refine Nat.le_trans (roundHalfEven_le _ _) ?_
      rw [← Nat.div_div_eq_div_mul]
      exact div_spacing_lt (num / den)
    refine (dist_roundHalfEven_lt_or num hstep hk).imp_right fun h => ⟨h.1, ?_⟩
    exact even_div_spacing hle (Nat.even_iff.mpr h.2)
  · -- A multiple of the step stands between the number and the quotient, so it is closer.
    obtain ⟨b, hb, hub, hbq⟩ := exists_between hs hd
    obtain ⟨k, rfl⟩ := exists_eq_mul_left_of_dvd hb
    have hlt : units < k * spacing (num / den) := Nat.lt_of_le_of_ne hub fun h => hd (h ▸ hb)
    have hle : k * spacing (num / den) * den ≤ num := (Nat.le_div_iff_mul_le hden).mp hbq
    have hge : units * den < k * spacing (num / den) * den := Nat.mul_lt_mul_of_pos_right hlt hden
    have hk := dist_roundHalfEven_le num k hstep
    left
    refine Nat.lt_of_le_of_lt hk ?_
    rw [← hmul]
    simp only [Nat.dist]
    omega

/-- No number is closer to a quotient than the one to which the quotient is rounded. -/
theorem dist_roundUnits_le (num : Nat) (hden : 0 < den) (hs : spacing units ∣ units) :
    Nat.dist (roundUnits num den * den) num ≤ Nat.dist (units * den) num := by
  rcases eq_or_ne units (roundUnits num den) with rfl | hne
  · exact Nat.le_refl _
  · exact (dist_roundUnits_lt_or num hden hs hne).elim Nat.le_of_lt fun h => Nat.le_of_eq h.1

end Binary64

end Calculator
