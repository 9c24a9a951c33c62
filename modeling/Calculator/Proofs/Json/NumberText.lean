import Calculator.Json.Writer
import Calculator.Proofs.Json.Grammar
import Calculator.Proofs.Number.ReadBack

/-!
# The texts of numbers

A number is written as decimal digits with a point or an exponent. Whichever it is, the digits and
the power of ten are those of the count of steps that was chosen for the number, and so the text
denotes the number.

* `isMagnitude_plain`, `isMagnitude_scientific`: the two layouts;
* `scalarText_number`: the text of a number denotes it.
-/

namespace Calculator

namespace Json

open Binary64

/-- The text is a decimal with a fraction or an exponent, and it is a whole count of steps. -/
def IsMagnitude (steps : Nat) (text : List Char) : Prop :=
  ∃ (whole fraction f e : List Char) (power : Int) (zeros : Nat),
    text = whole ++ (f ++ e) ∧ IsWhole whole ∧ FractionText fraction f ∧
    ExponentText power e ∧ f ++ e ≠ [] ∧ power - fraction.length = zeros - (places : Int) ∧
    Nat.ofDigitChars 10 (whole ++ fraction) 0 * 10 ^ zeros = steps

/-- Digits that begin with another one than zero, which write a count of steps with so many zeros
after them. -/
structure Significant (steps : Nat) (digits : List Char) (zeros : Nat) : Prop where
  ne_nil : digits ≠ []
  head : digits.head? ≠ some '0'
  isDigit : ∀ c ∈ digits, c.isDigit = true
  value : Nat.ofDigitChars 10 digits 0 * 10 ^ zeros = steps

variable {steps units zeros : Nat} {digits : List Char} {exponent : Int}

theorem exists_significant (h : steps ≠ 0) :
    ∃ zeros, Significant steps (significantDigits steps) zeros ∧
      decimalExponent steps = (significantDigits steps).length + zeros - 1 - (places : Int) := by
  obtain ⟨zeros, hz⟩ := exists_significantDigits h
  have hv := Nat.ofDigitChars_ten_toDigits (n := steps)
  have hne : significantDigits steps ≠ [] := by
    intro hnil
    rw [hz, hnil, List.nil_append, Nat.ofDigitChars_replicate_zero] at hv
    omega
  refine ⟨zeros, ⟨hne, fun hh => ?_, fun c hc => isDigit_toDigits (n := steps) c ?_, ?_⟩, ?_⟩
  · refine head?_toDigits_ne (Nat.pos_of_ne_zero h) ?_
    rw [hz, List.head?_append_of_ne_nil _ hne, hh]
  · rw [hz]
    exact List.mem_append_left _ hc
  · rw [hz, Nat.ofDigitChars_append, Nat.ofDigitChars_replicate_zero] at hv
    rw [Nat.mul_comm, hv]
  · rw [decimalExponent, if_neg h, hz]
    simp

/-! ## Without an exponent -/

theorem isDigits_zero : IsDigits ['0'] := ⟨by simp, by simp⟩

theorem Significant.isWhole_append (h : Significant steps digits zeros) (more : List Char)
    (hm : ∀ c ∈ more, c.isDigit = true) {count : Nat} (hc : count ≠ 0) :
    IsWhole (digits.take count ++ more) := by
  obtain ⟨c, tail, rfl⟩ := List.exists_cons_of_ne_nil h.ne_nil
  obtain ⟨count, rfl⟩ := Nat.exists_eq_add_one_of_ne_zero hc
  refine .inr ⟨by simp, by simpa using h.head, fun d hd => ?_⟩
  rcases List.mem_append.mp hd with hd | hd
  · exact h.isDigit d (List.mem_of_mem_take hd)
  · exact hm d hd

/-- The digits without an exponent. -/
theorem isMagnitude_plain (h : Significant steps digits zeros)
    (he : exponent = digits.length + zeros - 1 - (places : Int)) :
    IsMagnitude steps (NumberStyle.plain digits exponent) := by
  cases exponent with
  | ofNat e =>
    simp only [Int.ofNat_eq_natCast] at he
    rcases Nat.lt_or_ge (e + 1) digits.length with hl | hl
    · -- The point stands between the digits.
      have hw := h.isWhole_append [] (by simp) (Nat.succ_ne_zero e)
      rw [List.append_nil] at hw
      have hf : IsDigits (digits.drop (e + 1)) :=
        ⟨by simp [hl], fun c hc => h.isDigit c (List.mem_of_mem_drop hc)⟩
      refine ⟨_, _, _, [], 0, zeros, ?_, hw, .present hf, .absent, by simp, ?_, ?_⟩
      · simp [NumberStyle.plain, Nat.not_le.mpr hl, Nat.sub_eq_zero_of_le (Nat.le_of_lt hl)]
      · rw [List.length_drop]
        omega
      · rw [List.take_append_drop]
        exact h.value
    · -- Zeros fill up to the point.
      have hw := h.isWhole_append (List.replicate (e + 1 - digits.length) '0') (by simp)
        (Nat.succ_ne_zero e)
      refine ⟨_, ['0'], _, [], 0, places - 1, ?_, hw, .present isDigits_zero, .absent, by simp, ?_,
        ?_⟩
      · simp [NumberStyle.plain, hl]
      · simp [places]
      · rw [List.take_of_length_le hl, List.append_assoc, Nat.ofDigitChars_append,
          ← List.replicate_succ', Nat.ofDigitChars_replicate_zero, ← h.value, Nat.mul_comm (10 ^ _),
          Nat.mul_assoc, ← Nat.pow_add]
        congr 2
        simp only [places] at he ⊢
        omega
  | negSucc e =>
    have hf : IsDigits (List.replicate e '0' ++ digits) := by
      refine ⟨by simp [h.ne_nil], fun c hc => ?_⟩
      rcases List.mem_append.mp hc with hc | hc
      · rw [List.eq_of_mem_replicate hc]
        rfl
      · exact h.isDigit c hc
    refine ⟨['0'], _, _, [], 0, zeros, ?_, .inl rfl, .present hf, .absent, by simp, ?_, ?_⟩
    · simp [NumberStyle.plain]
    · simp only [Int.negSucc_eq] at he
      simp only [List.length_append, List.length_replicate]
      omega
    · rw [List.cons_append, List.nil_append, ← List.cons_append, ← List.replicate_succ,
        Nat.ofDigitChars_append, Nat.ofDigitChars_replicate_zero, Nat.mul_zero]
      exact h.value

/-! ## With an exponent -/

theorem exponentText_scientific (exponent : Int) (count : Nat) :
    ExponentText exponent ('e' :: (if exponent < 0 then '-' else '+') ::
      (List.replicate count '0' ++ Nat.toDigits 10 exponent.natAbs)) := by
  have hd : IsDigits (List.replicate count '0' ++ Nat.toDigits 10 exponent.natAbs) := by
    refine ⟨by simp [Nat.toDigits_ne_nil], fun c hc => ?_⟩
    rcases List.mem_append.mp hc with hc | hc
    · rw [List.eq_of_mem_replicate hc]
      rfl
    · exact isDigit_toDigits c hc
  have hv : Nat.ofDigitChars 10 (List.replicate count '0' ++ Nat.toDigits 10 exponent.natAbs) 0 =
      exponent.natAbs := by
    rw [Nat.ofDigitChars_append, Nat.ofDigitChars_replicate_zero, Nat.mul_zero,
      Nat.ofDigitChars_ten_toDigits]
  rcases lt_or_ge exponent 0 with hn | hn
  · have ht : ExponentText _ ('e' :: (['-'] ++ _)) := .present (by simp) (by simp) hd
    have he : -(exponent.natAbs : Int) = exponent := by omega
    rw [hv, if_pos rfl, he] at ht
    rw [if_pos hn]
    exact ht
  · have ht : ExponentText _ ('e' :: (['+'] ++ _)) := .present (by simp) (by simp) hd
    have he : (exponent.natAbs : Int) = exponent := by omega
    rw [hv, if_neg (by simp), he] at ht
    rw [if_neg (Int.not_lt.mpr hn)]
    exact ht

/-- The digits with an exponent. -/
theorem isMagnitude_scientific (style : NumberStyle) (h : Significant steps digits zeros)
    (he : exponent = digits.length + zeros - 1 - (places : Int)) :
    IsMagnitude steps (style.scientific digits exponent) := by
  have hw := h.isWhole_append [] (by simp) Nat.one_ne_zero
  rw [List.append_nil] at hw
  have hp := exponentText_scientific exponent
    (style.exponentDigits - (Nat.toDigits 10 exponent.natAbs).length)
  have hf : FractionText (digits.drop 1)
      (if digits.length ≤ 1 then [] else '.' :: digits.drop 1) := by
    split_ifs with hl
    · rw [List.drop_eq_nil_of_le hl]
      exact .absent
    · have hne : digits.drop 1 ≠ [] := by
        rw [ne_eq, List.drop_eq_nil_iff]
        exact hl
      exact .present ⟨hne, fun c hc => h.isDigit c (List.mem_of_mem_drop hc)⟩
  refine ⟨_, _, _, _, _, zeros, ?_, hw, hf, hp, by simp, ?_, ?_⟩
  · simp [NumberStyle.scientific]
  · have := List.length_pos_iff.mpr h.ne_nil
    rw [List.length_drop]
    omega
  · rw [List.take_append_drop]
    exact h.value

/-! ## Numbers -/

/-- The text of a magnitude is a decimal of the count of steps that is chosen for it. -/
theorem isMagnitude_magnitude (units : Nat) :
    IsMagnitude (shortest units) (fileNumbers.magnitude units) := by
  unfold NumberStyle.magnitude
  dsimp only
  by_cases hs : shortest units = 0
  · rw [hs]
    have hv : Nat.ofDigitChars 10 (['0'] ++ ['0']) 0 = 0 := rfl
    exact ⟨['0'], ['0'], _, [], 0, places - 1, rfl, .inl rfl, .present isDigits_zero, .absent,
      by simp, by simp [places], by rw [hv, Nat.zero_mul]⟩
  · obtain ⟨zeros, h, he⟩ := exists_significant hs
    split
    · exact isMagnitude_plain h he
    · exact isMagnitude_scientific fileNumbers h he

/-- A number is written as a text that denotes it. -/
theorem scalarText_number (limit : Nat) (x : Binary64) :
    ScalarText limit (number x) (fileNumbers.write x) := by
  cases x with
  | nan => exact .nan
  | infinity negative => exact .infinity negative
  | finite negative units h =>
    obtain ⟨whole, fraction, f, e, power, zeros, ht, hw, hf, he, hne, hp, hv⟩ :=
      isMagnitude_magnitude units
    have hr : ofSteps (shortest units) = units := roundUnits_shortest h.1
    have hn : ScalarText limit _ _ := .number negative hw hf he hne
    rw [hp, ofDecimal_of_ofSteps negative h (by rw [hv, hr]), ← ht] at hn
    exact hn

end Json

end Calculator
