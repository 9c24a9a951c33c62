import Calculator.Proofs.Number.Closest
import Calculator.Proofs.Number.Integer
import Calculator.Proofs.Number.Shown

/-!
# Rounding to hundredths twice

The hundredths that are shown for a number are read as a number again, and it
need not be the same number. But no number is closer to these hundredths, so
they are the nearest ones to this number too, and nothing new is shown:

* `Decimal.hundredthsOf_settled`: the hundredths stay, however far apart
  numbers and hundredths lie;
* `Decimal.settled_lt`: the number read is not too large;
* `Decimal.shown_ofRatio_hundredthsOf`: what is shown stays;
* `Decimal.exists_decimalText`: the digits of what is shown.
-/

namespace Calculator

theorem signed_inj {s t : Bool} {a b : ℚ} (ha : 0 ≤ a) (hb : 0 ≤ b) (h : signed s a = signed t b) :
    a = b ∧ (b = 0 ∨ s = t) := by
  cases s <;> cases t <;> simp only [signed, if_true, Bool.false_eq_true, if_false] at h
  · exact ⟨h, .inr rfl⟩
  · exact ⟨by linarith, .inl (by linarith)⟩
  · exact ⟨by linarith, .inl (by linarith)⟩
  · exact ⟨neg_inj.mp h, .inr rfl⟩

namespace Decimal

open Binary64

variable {negative : Bool} {units : Nat}

/-- The number closest to the hundredths of a number. -/
def settled (units : Nat) : Nat := roundUnits (hundredthsOf units * unitsPerOne) 100

/-- It is no farther from these hundredths than half of one, and there only from even ones. -/
theorem two_mul_dist_settled (hs : spacing units ∣ units) :
    2 * Nat.dist (hundredthsOf units * unitsPerOne) (settled units * 100) ≤ unitsPerOne ∧
      (2 * Nat.dist (hundredthsOf units * unitsPerOne) (settled units * 100) = unitsPerOne →
        hundredthsOf units % 2 = 0) := by
  have hc : Nat.dist (settled units * 100) (hundredthsOf units * unitsPerOne) ≤
      Nat.dist (units * 100) (hundredthsOf units * unitsPerOne) :=
    dist_roundUnits_le (hundredthsOf units * unitsPerOne) (by decide) hs
  obtain ⟨hh, ht⟩ : 2 * Nat.dist (hundredthsOf units * unitsPerOne) (units * 100) ≤ unitsPerOne ∧
      (2 * Nat.dist (hundredthsOf units * unitsPerOne) (units * 100) = unitsPerOne →
        hundredthsOf units % 2 = 0) :=
    two_mul_dist_roundHalfEven (units * 100) unitsPerOne_pos
  rw [Nat.dist_comm, Nat.dist_comm (units * 100)] at hc
  exact ⟨by omega, fun he => ht (by omega)⟩

theorem hundredthsOf_settled (hs : spacing units ∣ units) :
    hundredthsOf (settled units) = hundredthsOf units := by
  obtain ⟨hh, ht⟩ := two_mul_dist_settled hs
  exact roundHalfEven_eq_of_dist unitsPerOne_pos hh ht

theorem hundredthsOf_of_dvd (h : unitsPerOne ∣ units) :
    hundredthsOf units * unitsPerOne = units * 100 := by
  have hd : unitsPerOne ∣ units * 100 := Nat.dvd_mul_right_of_dvd h 100
  rw [hundredthsOf, roundHalfEven_eq_div unitsPerOne_pos hd, Nat.div_mul_cancel hd]

/-- A magnitude with a fraction has fewer than 53 binary digits before its point. -/
theorem lt_of_not_dvd (hs : spacing units ∣ units) (h : ¬ unitsPerOne ∣ units) :
    units < 2 ^ 52 * unitsPerOne := by
  have hlog : units.log2 - 52 < places := by
    by_contra hle
    exact h ((Nat.pow_dvd_pow 2 (by omega)).trans hs)
  rw [unitsPerOne, ← Nat.pow_add]
  exact Nat.lt_of_lt_of_le Nat.lt_log2_self (Nat.pow_le_pow_right (by decide) (by omega))

theorem settled_lt (h : Representable units) : settled units < overflowUnits := by
  by_cases hd : unitsPerOne ∣ units
  · -- A whole number is its own hundredths.
    rw [settled, hundredthsOf_of_dvd hd, roundUnits_mul_self (by decide) h.1]
    exact h.2
  · -- A number with a fraction is small enough for another half of a hundredth.
    have hu := lt_of_not_dvd h.1 hd
    have hc := (two_mul_dist_settled h.1).1
    have hh := (two_mul_dist_roundHalfEven (units * 100) unitsPerOne_pos).1
    have hlimit : exactLimit * unitsPerOne < overflowUnits :=
      (representable_whole (Nat.le_refl exactLimit)).2
    rw [← hundredthsOf] at hh
    simp only [Nat.dist, exactLimit] at hc hh hlimit
    omega

/-- The hundredths of a number, read as a number, are shown as the number is. -/
theorem shown_ofRatio_hundredthsOf (negative : Bool) (h : Representable units) :
    (ofRatio negative (hundredthsOf units * unitsPerOne) 100).isFinite = true ∧
      shown (ofRatio negative (hundredthsOf units * unitsPerOne) 100) =
        plain (ofHundredths negative (hundredthsOf units)) := by
  have hr : Representable (settled units) := ⟨spacing_dvd_roundUnits _ _, settled_lt h⟩
  have he : ofRatio negative (hundredthsOf units * unitsPerOne) 100 =
      .finite negative (settled units) hr := dif_pos hr.2
  rw [he, shown_finite, hundredthsOf_settled h.1]
  exact ⟨rfl, rfl⟩

/-- The text of a count of hundredths is made of digits that write it, after a minus if there is
one; no hundredths have none. -/
theorem exists_decimalText (negative : Bool) (hundredths : Nat) : ∃ sign whole fraction,
    plain (ofHundredths negative hundredths) = decimalText sign whole fraction ∧ IsWhole whole ∧
      (∀ c ∈ fraction, c.isDigit = true) ∧
      Nat.ofDigitChars 10 (whole ++ fraction) 0 * 100 = hundredths * 10 ^ fraction.length ∧
      ofHundredths sign hundredths = ofHundredths negative hundredths := by
  obtain ⟨sign, whole, fraction, ht, hw, hf⟩ := isShown_ofHundredths negative hundredths
  have hv := valueOf_ofHundredths negative hundredths
  rw [ht, valueOf_decimalText hw] at hv
  obtain ⟨hv, hsign⟩ := signed_inj (by positivity) (by positivity) hv
  refine ⟨sign, whole, fraction, ht, hw, hf.2.1, ?_, ?_⟩
  · rw [div_eq_div_iff (by positivity) (by norm_num)] at hv
    exact_mod_cast hv
  · rcases hsign with hz | rfl
    · have hh : hundredths = 0 := by simpa using hz
      rw [ofHundredths, ofHundredths, if_pos hh, if_pos hh]
    · rfl

end Decimal

end Calculator
