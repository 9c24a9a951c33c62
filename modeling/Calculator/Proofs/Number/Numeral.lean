import Calculator.Number.Numeral
import Mathlib.Data.List.TakeWhile

/-!
# Which texts are numerals

A run of digits and points is a numeral if it has a digit, and at most one
point. Its value is that of the digits before and after the point:

* `numeralValue?_of_isNumeralChar`: `numeralValue?` yields this value for the
  numerals, and none for any other run.
-/

namespace Calculator

/-- There is a digit, and no second point. -/
def IsNumeral (text : List Char) : Prop := (∃ c ∈ text, c.isDigit = true) ∧ text.count '.' ≤ 1

instance (text : List Char) : Decidable (IsNumeral text) := inferInstanceAs (Decidable (_ ∧ _))

/-- The number nearest to the decimal that a numeral writes. -/
def numeralValue (text : List Char) : Binary64 :=
  fixedPoint (text.takeWhile (· != '.')) ((text.dropWhile (· != '.')).drop 1)

theorem isDigit_eq_of_isNumeralChar {c : Char} (h : isNumeralChar c = true) :
    c.isDigit = (c != '.') := by
  by_cases hc : c = '.'
  · subst hc; rfl
  · rw [isNumeralChar, beq_false_of_ne hc, Bool.or_false] at h
    rw [h, bne_iff_ne.mpr hc]

theorem takeWhile_isDigit {text : List Char} (h : ∀ c ∈ text, isNumeralChar c = true) :
    text.takeWhile Char.isDigit = text.takeWhile (· != '.') := by
  induction text with
  | nil => rfl
  | cons c rest ih =>
    obtain ⟨hc, hr⟩ := List.forall_mem_cons.mp h
    rw [List.takeWhile_cons, List.takeWhile_cons, isDigit_eq_of_isNumeralChar hc, ih hr]

theorem dropWhile_isDigit {text : List Char} (h : ∀ c ∈ text, isNumeralChar c = true) :
    text.dropWhile Char.isDigit = text.dropWhile (· != '.') := by
  induction text with
  | nil => rfl
  | cons c rest ih =>
    obtain ⟨hc, hr⟩ := List.forall_mem_cons.mp h
    rw [List.dropWhile_cons, List.dropWhile_cons, isDigit_eq_of_isNumeralChar hc, ih hr]

theorem exists_dropWhile_point {text : List Char} (h : text.dropWhile (· != '.') ≠ []) :
    ∃ fraction, text.dropWhile (· != '.') = '.' :: fraction := by
  obtain ⟨point, fraction, hp⟩ := List.exists_cons_of_ne_nil h
  have hd := List.head?_dropWhile_not (· != '.') text
  rw [hp, List.head?_cons] at hd
  exact ⟨fraction, by rw [hp, show point = '.' by simpa using hd]⟩

theorem count_point_eq_zero {text : List Char} (h : ∀ c ∈ text, isNumeralChar c = true) :
    text.count '.' = 0 ↔ text.all Char.isDigit = true := by
  rw [List.all_eq_true, List.count_eq_zero]
  constructor
  · intro hp c hc
    rw [isDigit_eq_of_isNumeralChar (h c hc), bne_iff_ne]
    rintro rfl
    exact hp hc
  · intro hd hp
    exact absurd (hd _ hp) (by decide)

/-- Digits alone are a numeral unless there are none. -/
theorem isNumeral_digits {whole : List Char} (h : ∀ c ∈ whole, c.isDigit = true) :
    IsNumeral whole ↔ whole ≠ [] := by
  have hc : whole.count '.' = 0 := List.count_eq_zero.mpr fun hp => absurd (h _ hp) (by decide)
  rw [IsNumeral, hc, and_iff_left (Nat.zero_le 1)]
  constructor
  · rintro ⟨c, hc, -⟩
    exact List.ne_nil_of_mem hc
  · intro hn
    exact ⟨whole.head hn, List.head_mem hn, h _ (List.head_mem hn)⟩

theorem isNumeral_point {whole fraction : List Char} (hw : ∀ c ∈ whole, c.isDigit = true)
    (hf : ∀ c ∈ fraction, isNumeralChar c = true) :
    IsNumeral (whole ++ '.' :: fraction) ↔
      fraction.all Char.isDigit = true ∧ whole ++ fraction ≠ [] := by
  have hc : (whole ++ '.' :: fraction).count '.' ≤ 1 ↔ fraction.all Char.isDigit = true := by
    have hp : whole.count '.' = 0 := List.count_eq_zero.mpr fun hp => absurd (hw _ hp) (by decide)
    rw [List.count_append, hp, List.count_cons_self, ← count_point_eq_zero hf]
    omega
  rw [IsNumeral, hc, and_comm]
  refine and_congr_right fun hd => ?_
  have hd' : ∀ c ∈ whole ++ fraction, c.isDigit = true := by
    intro c hm
    exact (List.mem_append.mp hm).elim (hw c) (List.all_eq_true.mp hd c)
  rw [← isNumeral_digits hd', IsNumeral, List.count_eq_zero.mpr fun hp =>
    absurd (hd' _ hp) (by decide), and_iff_left (Nat.zero_le 1)]
  -- The point itself is no digit.
  have hp : ('.').isDigit = false := rfl
  simp only [List.mem_append, List.mem_cons, or_and_right, exists_or, exists_eq_left, hp,
    Bool.false_eq_true, false_or]

theorem numeralValue?_of_isNumeralChar {text : List Char}
    (h : ∀ c ∈ text, isNumeralChar c = true) :
    numeralValue? text = if IsNumeral text then some (numeralValue text) else none := by
  have hw : ∀ c ∈ text.takeWhile (· != '.'), c.isDigit = true := by
    rw [← takeWhile_isDigit h]
    exact fun c hc => List.mem_takeWhile_imp hc
  have ht : text.takeWhile (· != '.') ++ text.dropWhile (· != '.') = text :=
    List.takeWhile_append_dropWhile
  rw [numeralValue?, numeralValue, takeWhile_isDigit h, dropWhile_isDigit h]
  by_cases hd : text.dropWhile (· != '.') = []
  · rw [hd, List.append_nil] at ht
    rw [hd, ht]
    rw [ht] at hw
    simp only [isNumeral_digits hw, ite_not, List.drop_nil]
  · obtain ⟨fraction, hp⟩ := exists_dropWhile_point hd
    have hf : ∀ c ∈ fraction, isNumeralChar c = true := by
      intro c hc
      refine h c (ht ▸ List.mem_append_right _ ?_)
      rw [hp]
      exact List.mem_cons_of_mem _ hc
    have hn := isNumeral_point hw hf
    rw [← hp, ht] at hn
    rw [hp]
    simp only [hn, true_and, List.drop_succ_cons, List.drop_zero]

end Calculator
