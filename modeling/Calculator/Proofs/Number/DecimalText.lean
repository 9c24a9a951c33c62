import Calculator.Number.Decimal
import Mathlib.Algebra.Order.Field.Basic
import Mathlib.Algebra.Order.Field.Rat
import Mathlib.Algebra.Order.Ring.Abs
import Mathlib.Data.List.TakeWhile
import Mathlib.Tactic.FieldSimp
import Mathlib.Tactic.Ring

/-!
# Texts of decimals

A text of a decimal has a sign if it is negative, digits, and a point with more digits after it if
there are any. `valueOf` is the number that such a text denotes, by its digits alone.

* `Decimal.exists_digits`: the digits before and after the point of a coefficient and an exponent,
  and where the last one comes from;
* `Decimal.valueOf_plain`: writing a decimal keeps its value.
-/

namespace Calculator

/-- Digits without a superfluous zero before them: zero alone, or digits that begin with another
one. -/
def IsWhole (digits : List Char) : Prop :=
  digits = ['0'] ∨ digits ≠ [] ∧ digits.head? ≠ some '0' ∧ ∀ c ∈ digits, c.isDigit = true

/-- The text with these digits before and after its point; without digits after it there is no
point. -/
def decimalText (negative : Bool) (whole fraction : List Char) : List Char :=
  (if negative then ['-'] else []) ++ (whole ++ if fraction = [] then [] else '.' :: fraction)

/-- The number that digits denote, with at most one point among them. -/
def magnitudeOf (text : List Char) : ℚ :=
  let fraction := (text.dropWhile (· != '.')).drop 1
  Nat.ofDigitChars 10 (text.takeWhile (· != '.') ++ fraction) 0 / 10 ^ fraction.length

/-- The number that a text of a decimal denotes. -/
def valueOf (text : List Char) : ℚ :=
  if text.head? = some '-' then -magnitudeOf text.tail else magnitudeOf text

/-- The number with a sign. -/
def signed (negative : Bool) (value : ℚ) : ℚ := if negative then -value else value

variable {whole fraction : List Char}

/-! ## Reading a text -/

theorem IsWhole.ne_nil (h : IsWhole whole) : whole ≠ [] := by
  rcases h with rfl | h
  · exact List.cons_ne_nil _ _
  · exact h.1

theorem IsWhole.isDigit (h : IsWhole whole) : ∀ c ∈ whole, c.isDigit = true := by
  rcases h with rfl | h
  · intro c hc
    rw [List.mem_singleton.mp hc]
    rfl
  · exact h.2.2

theorem magnitudeOf_digits (hw : ∀ c ∈ whole, c.isDigit = true) :
    magnitudeOf (whole ++ if fraction = [] then [] else '.' :: fraction) =
      Nat.ofDigitChars 10 (whole ++ fraction) 0 / 10 ^ fraction.length := by
  have hp : ∀ c ∈ whole, (c != '.') = true := by
    intro c hc
    rw [bne_iff_ne]
    rintro rfl
    exact absurd (hw _ hc) (by decide)
  unfold magnitudeOf
  rw [List.takeWhile_append_of_pos hp, List.dropWhile_append_of_pos hp]
  split_ifs with hf
  · simp [hf]
  · simp

theorem valueOf_decimalText (hw : IsWhole whole) (negative : Bool) :
    valueOf (decimalText negative whole fraction) =
      signed negative (Nat.ofDigitChars 10 (whole ++ fraction) 0 / 10 ^ fraction.length) := by
  rw [← magnitudeOf_digits hw.isDigit]
  cases negative with
  | true => rfl
  | false =>
    have hn : whole.head? ≠ some '-' := fun h =>
      absurd (hw.isDigit _ (List.mem_of_head? h)) (by decide)
    rw [decimalText, if_neg Bool.false_ne_true, List.nil_append, valueOf, if_neg]
    · rfl
    · rwa [List.head?_append_of_ne_nil _ hw.ne_nil]

/-! ## The digits of a whole number -/

theorem getLast?_toDigits (n : Nat) :
    (Nat.toDigits 10 n).getLast? = some (Nat.digitChar (n % 10)) := by
  rw [Nat.toDigits_eq_if (by decide)]
  split_ifs with h
  · rw [Nat.mod_eq_of_lt h]
    rfl
  · exact List.getLast?_concat

theorem head?_toDigits_ne {n : Nat} (hn : 0 < n) : (Nat.toDigits 10 n).head? ≠ some '0' := by
  induction n using Nat.strongRecOn with
  | ind n ih =>
    rw [Nat.toDigits_eq_if (by decide)]
    split_ifs with h
    · rw [List.head?_cons, ne_eq, Option.some.injEq, Nat.digitChar_eq_zero]
      omega
    · rw [List.head?_append_of_ne_nil _ Nat.toDigits_ne_nil]
      exact ih (n / 10) (by omega) (by omega)

theorem isDigit_toDigits {n : Nat} : ∀ c ∈ Nat.toDigits 10 n, c.isDigit = true :=
  fun _ hc => Nat.isDigit_of_mem_toDigits (by decide) (by decide) hc

theorem isWhole_toDigits (n : Nat) : IsWhole (Nat.toDigits 10 n) := by
  rcases Nat.eq_zero_or_pos n with rfl | hn
  · exact .inl (Nat.toDigits_zero 10)
  · exact .inr ⟨Nat.toDigits_ne_nil, head?_toDigits_ne hn, isDigit_toDigits⟩

theorem ofDigitChars_lt {digits : List Char} (h : ∀ c ∈ digits, c.isDigit = true) (n : Nat) :
    Nat.ofDigitChars 10 digits n < (n + 1) * 10 ^ digits.length := by
  induction digits generalizing n with
  | nil => simp
  | cons c digits ih =>
    have hc : c.toNat - '0'.toNat < 10 := by
      have hd : 48 ≤ c.toNat ∧ c.toNat ≤ 57 :=
        Char.isDigit_iff_toNat.mp (h c List.mem_cons_self)
      show c.toNat - 48 < 10
      omega
    rw [Nat.ofDigitChars_cons, List.length_cons, Nat.pow_succ']
    calc Nat.ofDigitChars 10 digits (10 * n + (c.toNat - '0'.toNat))
        < (10 * n + (c.toNat - '0'.toNat) + 1) * 10 ^ digits.length :=
          ih (fun d hd => h d (List.mem_cons_of_mem _ hd)) _
      _ ≤ (n + 1) * 10 * 10 ^ digits.length := Nat.mul_le_mul_right _ (by omega)
      _ = (n + 1) * (10 * 10 ^ digits.length) := Nat.mul_assoc ..

/-- The digits of a number are at most as many as those of a text that writes it. -/
theorem length_toDigits_ofDigitChars_le (hw : IsWhole whole) :
    (Nat.toDigits 10 (Nat.ofDigitChars 10 whole 0)).length ≤ whole.length := by
  have hl := ofDigitChars_lt hw.isDigit 0
  rw [Nat.length_toDigits_le_iff (by decide) (List.length_pos_iff.mpr hw.ne_nil)]
  omega

namespace Decimal

/-! ## The digits of a decimal -/

/-- The digits before and after the point of `coefficient * 10 ^ exponent`: as many after it as the
exponent asks for, and the last of these is the last one of the coefficient. -/
structure Digits (coefficient : Nat) (exponent : Int) (whole fraction : List Char) : Prop where
  isWhole : IsWhole whole
  isDigit : ∀ c ∈ fraction, c.isDigit = true
  length : fraction.length = (-exponent).toNat
  value : Nat.ofDigitChars 10 (whole ++ fraction) 0 = coefficient * 10 ^ exponent.toNat
  last : ∀ c ∈ fraction.getLast?, c = Nat.digitChar (coefficient % 10)

variable {coefficient places : Nat} {exponent : Int}

/-- The digits of a coefficient, with as many zeros before them as the places need. -/
def padded (coefficient places : Nat) : List Char :=
  List.replicate (places + 1 - (Nat.toDigits 10 coefficient).length) '0' ++
    Nat.toDigits 10 coefficient

theorem length_padded (coefficient places : Nat) :
    (padded coefficient places).length = max (places + 1) (Nat.toDigits 10 coefficient).length := by
  simp only [padded, List.length_append, List.length_replicate]
  omega

theorem isDigit_padded : ∀ c ∈ padded coefficient places, c.isDigit = true := by
  intro c hc
  rcases List.mem_append.mp hc with hc | hc
  · rw [List.eq_of_mem_replicate hc]
    rfl
  · exact isDigit_toDigits c hc

theorem ofDigitChars_padded (coefficient places : Nat) :
    Nat.ofDigitChars 10 (padded coefficient places) 0 = coefficient := by
  rw [padded, Nat.ofDigitChars_append, Nat.ofDigitChars_replicate_zero, Nat.mul_zero,
    Nat.ofDigitChars_ten_toDigits]

/-- Before the point stands a zero if the places take all digits; else no zero stands first. -/
theorem isWhole_take_padded (hp : 0 < places) :
    IsWhole ((padded coefficient places).take ((padded coefficient places).length - places)) := by
  have hl := length_padded coefficient places
  rcases Nat.lt_or_ge places (Nat.toDigits 10 coefficient).length with hlt | hle
  · have hc : 0 < coefficient := by
      rcases Nat.eq_zero_or_pos coefficient with rfl | hc
      · rw [Nat.toDigits_zero, List.length_singleton] at hlt
        omega
      · exact hc
    have he : padded coefficient places = Nat.toDigits 10 coefficient := by
      rw [padded, Nat.sub_eq_zero_of_le (by omega)]
      rfl
    refine .inr ⟨?_, ?_, fun c h => isDigit_padded c (List.mem_of_mem_take h)⟩
    · rw [ne_eq, List.take_eq_nil_iff, not_or]
      exact ⟨by omega, he ▸ Nat.toDigits_ne_nil⟩
    · rw [List.head?_take, if_neg (by omega), he]
      exact head?_toDigits_ne hc
  · left
    rw [hl, show max (places + 1) (Nat.toDigits 10 coefficient).length - places = 1 by omega,
      padded, Nat.succ_sub hle, List.replicate_succ]
    rfl

theorem digits_pointed (coefficient : Nat) (hp : 0 < places) (he : exponent = -(places : Int)) :
    Digits coefficient exponent
      ((padded coefficient places).take ((padded coefficient places).length - places))
      ((padded coefficient places).drop ((padded coefficient places).length - places)) where
  isWhole := isWhole_take_padded hp
  isDigit := fun c hc => isDigit_padded c (List.mem_of_mem_drop hc)
  length := by
    have hl := length_padded coefficient places
    rw [List.length_drop]
    omega
  value := by
    rw [List.take_append_drop, ofDigitChars_padded, show exponent.toNat = 0 by omega, Nat.pow_zero,
      Nat.mul_one]
  last := by
    have hl := length_padded coefficient places
    intro c hc
    rw [List.getLast?_drop, if_neg (by omega), padded,
      List.getLast?_append_of_ne_nil _ Nat.toDigits_ne_nil, getLast?_toDigits] at hc
    exact (Option.some.inj hc).symm

/-- A decimal is written with its digits, and a point between them if some stand after it. -/
theorem exists_digits (coefficient : Nat) (exponent : Int) :
    ∃ whole fraction, Digits coefficient exponent whole fraction ∧
      ∀ negative, plain (finite negative coefficient exponent) =
        decimalText negative whole fraction := by
  cases exponent with
  | ofNat zeros =>
    refine ⟨Nat.toDigits 10 (coefficient * 10 ^ zeros), [], ?_, fun negative => ?_⟩
    · exact {
        isWhole := isWhole_toDigits _
        isDigit := by simp
        length := by simp
        value := by simp [Nat.ofDigitChars_ten_toDigits]
        last := by simp }
    · rw [decimalText, if_pos rfl, List.append_nil]
      rfl
  | negSucc n =>
    have hd := digits_pointed coefficient (Nat.succ_pos n) (Int.negSucc_eq n)
    refine ⟨_, _, hd, fun negative => ?_⟩
    have hn := hd.length
    rw [decimalText, if_neg (List.ne_nil_of_length_pos (hn.trans_gt (Nat.succ_pos n)))]
    rfl

theorem zpow_eq_div (exponent : Int) :
    (10 : ℚ) ^ exponent = 10 ^ exponent.toNat / 10 ^ (-exponent).toNat := by
  cases exponent with
  | ofNat n => simp
  | negSucc n => simp [zpow_negSucc, Int.neg_negSucc]

/-- Writing a decimal keeps its value. -/
theorem valueOf_plain (negative : Bool) (coefficient : Nat) (exponent : Int) :
    valueOf (plain (finite negative coefficient exponent)) =
      signed negative (coefficient * 10 ^ exponent) := by
  obtain ⟨whole, fraction, hd, hp⟩ := exists_digits coefficient exponent
  rw [hp, valueOf_decimalText hd.isWhole, hd.value, hd.length, zpow_eq_div]
  push_cast
  rw [mul_div_assoc]

end Decimal

end Calculator
