import Calculator.Proofs.Equation.Validation
import Calculator.Proofs.Number.Settled

/-!
# A result is an equation

What is shown for a finite number is a numeral, after a minus if the number is
negative, and this is an equation again. Its value is the number closest to
what is shown, and the same is shown for it:

* `Equation.ofText_decimalText`, `Equation.parse_decimalText`: the tokens and
  the tree of a text of a decimal;
* `Equation.calculate_decimalText`: its result;
* `Equation.calculate_idempotent`: results are their own results.
-/

namespace Calculator

namespace Binary64

theorem neg_ofRatio (num den : Nat) : (ofRatio false num den).neg = ofRatio true num den := by
  unfold ofRatio
  split <;> rfl

end Binary64

/-! ## The numeral of a decimal -/

section Numeral

theorem decimalText_false (whole fraction : List Char) : decimalText false whole fraction =
    whole ++ if fraction = [] then [] else '.' :: fraction := rfl

variable {whole fraction : List Char} (hw : ∀ c ∈ whole, c.isDigit = true)
  (hf : ∀ c ∈ fraction, c.isDigit = true)
include hw

theorem numeralValue_decimalText :
    numeralValue (decimalText false whole fraction) = fixedPoint whole fraction := by
  have hp : ∀ c ∈ whole, (c != '.') = true := by
    intro c hc
    rw [← isDigit_eq_of_isNumeralChar (Cursor.isNumeralChar_of_isDigit (hw c hc)), hw c hc]
  rw [numeralValue, decimalText_false, List.takeWhile_append_of_pos hp,
    List.dropWhile_append_of_pos hp]
  split_ifs with h
  · simp [h]
  · simp

include hf

theorem isNumeralChar_decimalText :
    ∀ c ∈ decimalText false whole fraction, isNumeralChar c = true := by
  have hpoint : ∀ c ∈ if fraction = [] then [] else '.' :: fraction, isNumeralChar c = true := by
    split_ifs
    · exact fun c hc => absurd hc List.not_mem_nil
    · exact List.forall_mem_cons.mpr ⟨rfl, fun c hc => Cursor.isNumeralChar_of_isDigit (hf c hc)⟩
  rw [decimalText_false]
  exact List.forall_mem_append.mpr ⟨fun c hc => Cursor.isNumeralChar_of_isDigit (hw c hc), hpoint⟩

theorem isNumeral_decimalText (hne : whole ≠ []) :
    IsNumeral (decimalText false whole fraction) := by
  rw [decimalText_false]
  split_ifs
  · rw [List.append_nil]
    exact (isNumeral_digits hw).mpr hne
  · refine (isNumeral_point hw fun c hc => Cursor.isNumeralChar_of_isDigit (hf c hc)).mpr ?_
    exact ⟨List.all_eq_true.mpr hf, List.append_ne_nil_of_left_ne_nil hne fraction⟩

end Numeral

namespace Equation

open Binary64 Decimal

variable {negative : Bool} {whole fraction equation text : List Char} {units : Nat}

theorem ofText_decimalText (negative : Bool) (hw : IsWhole whole)
    (hf : ∀ c ∈ fraction, c.isDigit = true) :
    Token.ofText (decimalText negative whole fraction) =
      (if negative then [.symbol '-'] else []) ++
        [.numeral (decimalText false whole fraction)] := by
  have hne : decimalText false whole fraction ≠ [] :=
    List.append_ne_nil_of_left_ne_nil hw.ne_nil _
  have ht : Token.ofText (decimalText false whole fraction) =
      [.numeral (decimalText false whole fraction)] := by
    have hrun := Token.ofText_numeral_append hne (isNumeralChar_decimalText hw.isDigit hf)
      fun c (hc : c ∈ [].head?) => nomatch hc
    rwa [List.append_nil, Token.ofText_nil] at hrun
  cases negative with
  | false => exact ht
  | true =>
    have hm := Token.ofText_symbol_cons (x := '-') (by decide) (decimalText false whole fraction)
    rw [ht] at hm
    exact hm

section

variable [Host]

/-- The value of a text of a decimal is the number closest to the decimal. -/
theorem parse_decimalText (negative : Bool) (hw : IsWhole whole)
    (hf : ∀ c ∈ fraction, c.isDigit = true) :
    ∃ tree, parse (decimalText negative whole fraction) = .ok tree ∧ tree.depth ≤ 2 ∧
      tree.eval = .ok (ofRatio negative (Nat.ofDigitChars 10 (whole ++ fraction) 0 * unitsPerOne)
        (10 ^ fraction.length)) := by
  obtain ⟨tree, ht, hd, hx⟩ : ∃ tree,
      Derives true .expression (Token.ofText (decimalText negative whole fraction)) tree ∧
        tree.depth ≤ 2 ∧ tree.eval = .ok (ofRatio negative
          (Nat.ofDigitChars 10 (whole ++ fraction) 0 * unitsPerOne) (10 ^ fraction.length)) := by
    have hn : Derives true .factor [.numeral (decimalText false whole fraction)]
        (.number (fixedPoint whole fraction)) := by
      rw [← numeralValue_decimalText hw.isDigit]
      exact .closed (.numeral (isNumeral_decimalText hw.isDigit hf hw.ne_nil))
    rw [ofText_decimalText negative hw hf]
    cases negative with
    | false => exact ⟨_, .term (.factor hn), Nat.le_succ 1, rfl⟩
    | true =>
      refine ⟨_, .term (.factor (.sign (by decide) hn)), Nat.le_refl 2, ?_⟩
      rw [← neg_ofRatio, Expr.eval, Expr.eval]
      exact congrArg Except.ok (if_pos rfl)
  have hlength : (Token.ofText (decimalText negative whole fraction)).length ≤ 2 := by
    rw [ofText_decimalText negative hw hf]
    cases negative <;> exact Nat.le_of_ble_eq_true rfl
  have hr := Reading.whole_of_derives ht hlength
  exact ⟨tree, parse_of_whole Host.enough hr, hd, hx⟩

/-- The result of a text of a decimal, if this is not too large. -/
theorem calculate_decimalText (hw : IsWhole whole) (hf : ∀ c ∈ fraction, c.isDigit = true)
    (h : (ofRatio negative (Nat.ofDigitChars 10 (whole ++ fraction) 0 * unitsPerOne)
      (10 ^ fraction.length)).isFinite = true) :
    calculate (decimalText negative whole fraction) =
      .ok (shown (ofRatio negative (Nat.ofDigitChars 10 (whole ++ fraction) 0 * unitsPerOne)
        (10 ^ fraction.length))) := by
  obtain ⟨tree, hp, hd, hx⟩ := parse_decimalText negative hw hf
  have hl := Nat.le_trans Host.enough (Host.least_le_levels tree)
  rw [calculate_of_isFinite hp hx h, if_neg (by omega)]
  rfl

/-! ## Results -/

/-- What is shown for a finite number is an equation with itself as its result. -/
theorem calculate_shown {x : Binary64} (hx : x.isFinite = true) :
    calculate (shown x) = .ok (shown x) := by
  cases x with
  | nan | infinity => cases hx
  | finite negative units h =>
    obtain ⟨sign, whole, fraction, ht, hw, hf, hv, hs⟩ :=
      exists_decimalText negative (hundredthsOf units)
    -- The digits write the hundredths, so they are rounded to the same number.
    have hr : ofRatio sign (Nat.ofDigitChars 10 (whole ++ fraction) 0 * unitsPerOne)
        (10 ^ fraction.length) = ofRatio sign (hundredthsOf units * unitsPerOne) 100 := by
      have hu : roundUnits (Nat.ofDigitChars 10 (whole ++ fraction) 0 * unitsPerOne)
          (10 ^ fraction.length) = roundUnits (hundredthsOf units * unitsPerOne) 100 :=
        roundUnits_congr (Nat.pow_pos (by decide)) (by decide)
          (by rw [Nat.mul_right_comm, hv, Nat.mul_right_comm])
      simp only [ofRatio, hu]
    obtain ⟨hfin, hsame⟩ := shown_ofRatio_hundredthsOf sign h
    rw [← hr] at hfin
    rw [shown_finite, ht, calculate_decimalText hw hf hfin, hr, hsame, hs, ht]

theorem exists_shown_of_calculate (h : calculate equation = .ok text) : ∃ x, text = shown x := by
  rw [calculate_eq_map] at h
  cases hv : validate equation with
  | error fault =>
    rw [evaluate_of_validate hv] at h
    cases h
  | ok =>
    cases hp : parse equation with
    | error fault =>
      rw [evaluate_of_parse hv hp] at h
      cases h
    | ok tree =>
      obtain ⟨-, x, hx⟩ := depth_le_and_eval_of_parse hp
      rw [evaluate_of_eval hv hp hx] at h
      split at h
      · cases h
      · exact ⟨x, (Except.ok.inj h).symm⟩

/-- A result that is a number is its own result. -/
theorem calculate_idempotent (h : calculate equation = .ok text) (hnan : text ≠ "NaN".toList)
    (hpos : text ≠ "Infinity".toList) (hneg : text ≠ "-Infinity".toList) :
    calculate text = .ok text := by
  obtain ⟨x, rfl⟩ := exists_shown_of_calculate h
  cases x with
  | nan => exact absurd rfl hnan
  | infinity negative =>
    cases negative with
    | false => exact absurd rfl hpos
    | true => exact absurd rfl hneg
  | finite negative units h => exact calculate_shown rfl

end

/-- Numbers of this size are more than a hundredth apart. -/
theorem calculate_idempotent_of_sparse :
    calculate "0-70368744177664.01".toList = .ok "-70368744177664.02".toList ∧
      calculate "-70368744177664.02".toList = .ok "-70368744177664.02".toList := by
  have h : calculate "0-70368744177664.01".toList = .ok "-70368744177664.02".toList := by
    decide +kernel
  exact ⟨h, calculate_idempotent h (by decide) (by decide) (by decide)⟩

end Equation

end Calculator
