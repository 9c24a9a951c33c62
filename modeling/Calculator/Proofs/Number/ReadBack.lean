import Calculator.Number.Numeral
import Calculator.Number.Shortest
import Calculator.Proofs.Number.Closest
import Calculator.Proofs.Number.DecimalText

/-!
# Numbers that are read back

A decimal of a whole count of steps is read as the number to which the count is rounded. The
exponents that reading decides without computing a power are far beyond the range of the numbers,
so they decide it rightly. The digits with which a number is written are those of a count of steps
without the zeros at its end.

* `Binary64.ofDecimal_of_ofSteps`: a decimal is read as the number to which it is rounded;
* `Binary64.exists_significantDigits`: the digits and the zeros of a count of steps.
-/

namespace Calculator

namespace Binary64

variable {num den units steps coefficient zeros : Nat}

/-! ## Very small and very large quotients -/

theorem roundUnits_eq_zero (h : 2 * num < den) : roundUnits num den = 0 := by
  have hq : num / den = 0 := Nat.div_eq_of_lt (by omega)
  have hm : num % den = num := Nat.mod_eq_of_lt (by omega)
  simp [roundUnits, roundHalfEven, spacing, hq, hm, h]

/-- Rounding does not cross a power of two. -/
theorem two_pow_log2_le_roundUnits (h : num / den ≠ 0) :
    2 ^ (num / den).log2 ≤ roundUnits num den := by
  have hd : spacing (num / den) ∣ 2 ^ (num / den).log2 := Nat.pow_dvd_pow 2 (Nat.sub_le _ _)
  calc 2 ^ (num / den).log2
      = 2 ^ (num / den).log2 / spacing (num / den) * spacing (num / den) :=
        (Nat.div_mul_cancel hd).symm
    _ ≤ num / den / spacing (num / den) * spacing (num / den) :=
        Nat.mul_le_mul_right _ (Nat.div_le_div_right (Nat.log2_self_le h))
    _ ≤ roundUnits num den := by
        rw [Nat.div_div_eq_div_mul]
        exact Nat.mul_le_mul_right _ (le_roundHalfEven _ _)

theorem overflowUnits_le_roundUnits (hden : 0 < den) (h : overflowUnits * den ≤ num) :
    overflowUnits ≤ roundUnits num den := by
  have hq : overflowUnits ≤ num / den := (Nat.le_div_iff_mul_le hden).mpr h
  have hne : num / den ≠ 0 := Nat.ne_of_gt (Nat.lt_of_lt_of_le overflowUnits_pos hq)
  refine Nat.le_trans ?_ (two_pow_log2_le_roundUnits hne)
  exact Nat.pow_le_pow_right (by decide) ((Nat.le_log2 hne).mpr hq)

theorem ofSteps_eq_zero {n : Nat} (h : steps < 10 ^ n) (hn : n + 401 ≤ places) :
    ofSteps steps = 0 := by
  have hs : 2 * 10 ^ (places - 401) ≤ stepsPerUnit := by decide +kernel
  refine roundUnits_eq_zero (Nat.lt_of_lt_of_le ?_ hs)
  exact Nat.mul_lt_mul_of_pos_left
    (Nat.lt_of_lt_of_le h (Nat.pow_le_pow_right (by decide) (by omega))) Nat.two_pos

theorem lt_of_ofSteps_lt {n : Nat} (h : ofSteps steps < overflowUnits) (hn : places + 400 ≤ n) :
    steps < 10 ^ n := by
  have hs : overflowUnits * stepsPerUnit ≤ 10 ^ (places + 400) := by decide +kernel
  by_contra hlt
  have hle := (hs.trans (Nat.pow_le_pow_right (by decide) hn)).trans (Nat.not_lt.mp hlt)
  exact absurd h (Nat.not_lt.mpr (overflowUnits_le_roundUnits stepsPerUnit_pos hle))

/-! ## Decimals -/

theorem ofRatio_of_roundUnits (negative : Bool) (h : Representable units)
    (hr : roundUnits num den = units) : ofRatio negative num den = finite negative units h := by
  subst hr
  exact dif_pos h.2

theorem coefficient_lt (coefficient : Nat) :
    coefficient < 10 ^ (Nat.toDigits 10 coefficient).length :=
  (Nat.length_toDigits_le_iff (by decide) (List.length_pos_iff.mpr Nat.toDigits_ne_nil)).mp
    (Nat.le_refl _)

theorem le_coefficient (h : coefficient ≠ 0) :
    10 ^ ((Nat.toDigits 10 coefficient).length - 1) ≤ coefficient := by
  rcases Nat.eq_zero_or_pos ((Nat.toDigits 10 coefficient).length - 1) with hl | hl
  · rw [hl]
    exact Nat.pos_of_ne_zero h
  · by_contra hlt
    have := (Nat.length_toDigits_le_iff (by decide) hl).mpr (Nat.not_le.mp hlt)
    omega

theorem ten_pow_places : 10 ^ places = unitsPerOne * stepsPerUnit := by
  rw [unitsPerOne, stepsPerUnit, ← Nat.mul_pow]

/-- A decimal of a whole count of steps is read as the number to which the count is rounded. -/
theorem ofDecimal_of_ofSteps (negative : Bool) (h : Representable units)
    (hs : ofSteps (coefficient * 10 ^ zeros) = units) :
    ofDecimal negative coefficient (zeros - (places : Int)) = finite negative units h := by
  have hzero (hu : units = 0) : finite negative 0 representable_zero = finite negative units h := by
    subst hu
    rfl
  unfold ofDecimal
  dsimp only
  split_ifs with hsmall hlarge
  · refine hzero ?_
    rw [← hs]
    rcases hsmall with rfl | hsmall
    · rw [Nat.zero_mul]
      exact roundUnits_eq_zero (by simpa using stepsPerUnit_pos)
    · refine ofSteps_eq_zero (n := (Nat.toDigits 10 coefficient).length + zeros) ?_ ?_
      · rw [Nat.pow_add]
        exact Nat.mul_lt_mul_of_pos_right (coefficient_lt coefficient) (Nat.pow_pos (by decide))
      · omega
  · -- The count is too large to be rounded to a number.
    rw [not_or] at hsmall
    have hlt : coefficient * 10 ^ zeros < 10 ^ ((Nat.toDigits 10 coefficient).length - 1 + zeros) :=
      lt_of_ofSteps_lt (hs ▸ h.2) (by omega)
    rw [Nat.pow_add] at hlt
    exact absurd (Nat.mul_le_mul_right _ (le_coefficient hsmall.1)) (Nat.not_le.mpr hlt)
  · split
    · rename_i n hn
      have hz : zeros = n + places := by
        simp only [Int.ofNat_eq_natCast] at hn
        omega
      refine ofRatio_of_roundUnits negative h (Eq.trans ?_ hs)
      refine roundUnits_congr Nat.one_pos stepsPerUnit_pos ?_
      rw [hz, Nat.pow_add, ten_pow_places]
      simp only [Nat.mul_assoc, Nat.mul_one]
    · rename_i n hn
      have hz : places = zeros + (n + 1) := by
        simp only [Int.negSucc_eq] at hn
        omega
      refine ofRatio_of_roundUnits negative h (Eq.trans ?_ hs)
      refine roundUnits_congr (Nat.pow_pos (by decide)) stepsPerUnit_pos ?_
      rw [Nat.mul_assoc, ← ten_pow_places, hz, Nat.pow_add, Nat.mul_assoc]

/-! ## The digits of a count of steps -/

/-- The digits of a positive count of steps, without the zeros at its end. -/
theorem exists_significantDigits (h : steps ≠ 0) :
    ∃ zeros, Nat.toDigits 10 steps = significantDigits steps ++ List.replicate zeros '0' := by
  have hsplit : Nat.toDigits 10 steps =
      ((Nat.toDigits 10 steps).reverse.dropWhile (· == '0')).reverse ++
        ((Nat.toDigits 10 steps).reverse.takeWhile (· == '0')).reverse := by
    rw [← List.reverse_append, List.takeWhile_append_dropWhile, List.reverse_reverse]
  have hzeros : ((Nat.toDigits 10 steps).reverse.takeWhile (· == '0')).reverse =
      List.replicate ((Nat.toDigits 10 steps).reverse.takeWhile (· == '0')).length '0' := by
    refine List.eq_replicate_iff.mpr ⟨List.length_reverse, fun c hc => ?_⟩
    simpa using List.mem_takeWhile_imp (List.mem_reverse.mp hc)
  rw [hzeros] at hsplit
  have hdigits : significantDigits steps =
      ((Nat.toDigits 10 steps).reverse.dropWhile (· == '0')).reverse := by
    refine if_neg fun hnil => h ?_
    -- Without other digits than zeros the count would be zero.
    have hv := Nat.ofDigitChars_ten_toDigits (n := steps)
    rw [hsplit, hnil, List.reverse_nil, List.nil_append, Nat.ofDigitChars_replicate_zero] at hv
    omega
  rw [hdigits]
  exact ⟨_, hsplit⟩

end Binary64

end Calculator
