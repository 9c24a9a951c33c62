import Calculator.Number.Arithmetic
import Calculator.Number.Decimal
import Calculator.Proofs.Number.Numeral
import Mathlib.Algebra.Ring.Int.Defs

/-!
# Integers among the numbers

Every integer up to `2 ^ 53` is a number, of either sign if it is zero. As long
as a result is within this bound, arithmetic on such numbers is that on the
integers, and the decimal shown for one is the integer:

* `Binary64.Is.add`, `Binary64.Is.sub`, `Binary64.Is.mul`: exact operations;
* `Binary64.is_numeralValue`: numerals without a point;
* `Binary64.Is.plain_ofBinary64`: the text of an integer.
-/

namespace Calculator

namespace Binary64

/-- The number is the integer. -/
def Is (n : Int) (x : Binary64) : Prop :=
  ∃ negative units h, x = finite negative units h ∧ signedUnits negative units = n * unitsPerOne

/-- The integers that are numbers, with all integers between them and zero. -/
def exactLimit : Nat := 2 ^ 53

variable {x y : Binary64} {m n : Int}

/-! ## Signs and units -/

theorem natAbs_signedUnits (negative : Bool) (units : Nat) :
    (signedUnits negative units).natAbs = units := by
  cases negative <;> simp [signedUnits]

theorem signedUnits_natAbs (zeroNegative : Bool) (k : Int) :
    signedUnits (if k = 0 then zeroNegative else k < 0) k.natAbs = k := by
  unfold signedUnits
  rcases eq_or_ne k 0 with rfl | hk
  · cases zeroNegative <;> rfl
  · simp only [if_neg hk, decide_eq_true_eq]
    split <;> omega

theorem signedUnits_mul (s t : Bool) (a b : Nat) :
    signedUnits (s != t) (a * b) = signedUnits s a * signedUnits t b := by
  cases s <;> cases t <;> simp [signedUnits]

theorem natAbs_mul_unitsPerOne (n : Int) : (n * unitsPerOne).natAbs = n.natAbs * unitsPerOne := by
  rw [Int.natAbs_mul, Int.natAbs_natCast]

/-! ## Exact results -/

theorem representable_whole {whole : Nat} (h : whole ≤ exactLimit) :
    Representable (whole * unitsPerOne) := by
  refine representable_mul_two_pow h ?_
  have hw : exactLimit * 2 ^ places < overflowUnits := by
    rw [exactLimit, overflowUnits, ← Nat.pow_add]
    exact Nat.pow_lt_pow_right (by decide) (by decide)
  exact Nat.lt_of_le_of_lt (Nat.mul_le_mul_right _ h) hw

theorem roundUnits_mul_self {units den : Nat} (hd : 0 < den) (h : spacing units ∣ units) :
    roundUnits (units * den) den = units := by
  rw [roundUnits, Nat.mul_div_cancel _ hd, Nat.mul_comm units,
    roundHalfEven_eq_div (Nat.mul_pos hd (spacing_pos units)) (Nat.mul_dvd_mul_left _ h),
    Nat.mul_div_mul_left _ _ hd, Nat.div_mul_cancel h]

/-- A representable magnitude is its own quotient. -/
theorem ofRatio_mul_self (negative : Bool) {units den : Nat} (hd : 0 < den)
    (h : Representable units) :
    ofRatio negative (units * den) den = finite negative units h := by
  have hr := roundUnits_mul_self hd h.1
  simp only [ofRatio, hr, h.2, dif_pos]

theorem is_ofInt (zeroNegative : Bool) (h : n.natAbs ≤ exactLimit) :
    (ofInt zeroNegative (n * unitsPerOne)).Is n := by
  have hs := signedUnits_natAbs zeroNegative (n * unitsPerOne)
  rw [natAbs_mul_unitsPerOne] at hs
  rw [ofInt, natAbs_mul_unitsPerOne, ofUnits_eq_finite _ (representable_whole h)]
  exact ⟨_, _, _, rfl, hs⟩

/-- The units of a number that is an integer are those of the integer. -/
theorem Is.exists_units (h : x.Is n) : ∃ negative units hr,
    x = finite negative units hr ∧ units = n.natAbs * unitsPerOne ∧
      signedUnits negative units = n * unitsPerOne := by
  obtain ⟨negative, units, hr, hx, hs⟩ := h
  have hu : units = n.natAbs * unitsPerOne := by
    rw [← natAbs_mul_unitsPerOne, ← hs, natAbs_signedUnits]
  exact ⟨negative, units, hr, hx, hu, hs⟩

theorem Is.isFinite (h : x.Is n) : x.isFinite = true := by
  obtain ⟨negative, units, hr, rfl, -⟩ := h
  rfl

theorem Is.add (hx : x.Is m) (hy : y.Is n) (h : (m + n).natAbs ≤ exactLimit) :
    (x.add y).Is (m + n) := by
  obtain ⟨s, a, ha, rfl, hs⟩ := hx
  obtain ⟨t, b, hb, rfl, ht⟩ := hy
  rw [Binary64.add, hs, ht, ← Int.add_mul]
  exact is_ofInt _ h

theorem Is.neg (hx : x.Is n) : x.neg.Is (-n) := by
  obtain ⟨s, a, ha, rfl, hs⟩ := hx
  have hn : signedUnits (!s) a = -signedUnits s a := by
    cases s <;> simp [signedUnits]
  exact ⟨!s, a, ha, rfl, by rw [hn, hs, Int.neg_mul]⟩

theorem Is.sub (hx : x.Is m) (hy : y.Is n) (h : (m - n).natAbs ≤ exactLimit) :
    (x.sub y).Is (m - n) :=
  hx.add hy.neg h

theorem Is.mul (hx : x.Is m) (hy : y.Is n) (h : (m * n).natAbs ≤ exactLimit) :
    (x.mul y).Is (m * n) := by
  obtain ⟨s, a, ha, rfl, hu, hs⟩ := hx.exists_units
  obtain ⟨t, b, hb, rfl, hv, ht⟩ := hy.exists_units
  -- Both products have the units of one twice; one of the two is rounded away.
  have hp : a * b = (m * n).natAbs * unitsPerOne * unitsPerOne := by
    rw [hu, hv, Nat.mul_mul_mul_comm, ← Int.natAbs_mul, Nat.mul_assoc]
  have hi : signedUnits (s != t) (a * b) = m * n * unitsPerOne * unitsPerOne := by
    rw [signedUnits_mul, hs, ht, mul_mul_mul_comm, ← mul_assoc]
  have hc := signedUnits_mul (s != t) false ((m * n).natAbs * unitsPerOne) unitsPerOne
  rw [Bool.bne_false, ← hp, hi] at hc
  have hz : (unitsPerOne : Int) ≠ 0 := Int.natCast_ne_zero.mpr unitsPerOne_pos.ne'
  rw [Binary64.mul, hp, ofRatio_mul_self _ unitsPerOne_pos (representable_whole h)]
  exact ⟨_, _, _, rfl, (Int.eq_of_mul_eq_mul_right hz hc).symm⟩

/-! ## Texts -/

/-- A numeral without a point is the integer that its digits write. -/
theorem is_numeralValue {text : List Char} (hd : ∀ c ∈ text, c.isDigit = true)
    (h : Nat.ofDigitChars 10 text 0 ≤ exactLimit) :
    (numeralValue text).Is (Nat.ofDigitChars 10 text 0 : Nat) := by
  have hp : ∀ c ∈ text, (c != '.') = true := by
    intro c hc
    rw [bne_iff_ne]
    rintro rfl
    exact absurd (hd _ hc) (by decide)
  have hw : text.takeWhile (· != '.') = text := List.takeWhile_eq_self_iff.mpr hp
  have hf : text.dropWhile (· != '.') = [] := List.dropWhile_eq_nil_iff.mpr hp
  have hv : numeralValue text = ofUnits false (Nat.ofDigitChars 10 text 0 * unitsPerOne) := by
    rw [numeralValue, hw, hf, fixedPoint, List.drop_nil, List.append_nil]
    rfl
  rw [hv, ofUnits_eq_finite false (representable_whole h)]
  exact ⟨_, _, _, rfl, Int.natCast_mul _ _⟩

theorem toList_toString (n : Int) :
    (toString n).toList = (if n < 0 then ['-'] else []) ++ Nat.toDigits 10 n.natAbs := by
  cases n with
  | ofNat k =>
    rw [if_neg (by simp)]
    simp [toString, Int.repr, Nat.repr]
  | negSucc k =>
    rw [if_pos (Int.negSucc_lt_zero k)]
    simp [toString, Int.repr, Nat.repr]

/-- The decimal shown for an integer is written as the integer. -/
theorem Is.plain_ofBinary64 (h : x.Is n) : (Decimal.ofBinary64 x).plain = (toString n).toList := by
  obtain ⟨negative, units, hr, rfl, hu, hs⟩ := h.exists_units
  have hw : units / unitsPerOne = n.natAbs := by rw [hu, Nat.mul_div_cancel _ unitsPerOne_pos]
  have hn : (negative && n.natAbs != 0) = decide (n < 0) := by
    -- The sign of a product by what is positive is that of the other factor.
    have hpos : (0 : Int) < unitsPerOne := Int.natCast_pos.mpr unitsPerOne_pos
    have hlt : n * unitsPerOne < 0 * unitsPerOne ↔ n < 0 := Int.mul_lt_mul_right hpos
    have hzero : n.natAbs = 0 ↔ units = 0 := by
      rw [hu, Nat.mul_eq_zero, or_iff_left unitsPerOne_pos.ne']
    rw [Bool.eq_iff_iff, Bool.and_eq_true, bne_iff_ne, ne_eq, hzero, decide_eq_true_eq, ← hlt,
      Int.zero_mul, ← hs]
    cases negative <;> simp [signedUnits, Nat.pos_iff_ne_zero]
  rw [Decimal.ofBinary64_of_isInteger (by rw [hu, Nat.mul_mod_left]), hw, hn, toList_toString]
  simp [Decimal.plain, Decimal.plainMagnitude]

end Binary64

end Calculator
