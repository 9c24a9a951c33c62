import Calculator.Proofs.Number.DecimalText

/-!
# Plain notation

A finite decimal is written without an exponent: its sign, digits without a
superfluous zero before them, and as many digits after a point as a negative
exponent asks for. Digits of one length are determined by their value, so
there is no other text of this form for a decimal:

* `eq_of_ofDigitChars_eq`: digits of one length that denote the same number
  are the same;
* `IsPlain.eq_of_valueOf_eq`: so are texts in plain notation for one sign and
  exponent;
* `Decimal.plain_keeps_value`: what is written for every finite decimal.
-/

namespace Calculator

/-- A text in plain notation for decimals of this sign and exponent. A positive exponent leaves no
digits after a point, and then there is no point. -/
def IsPlain (negative : Bool) (exponent : Int) (text : List Char) : Prop :=
  ∃ whole fraction, text = decimalText negative whole fraction ∧ IsWhole whole ∧
    (∀ c ∈ fraction, c.isDigit = true) ∧ (fraction.length : Int) = max 0 (-exponent)

variable {negative : Bool} {exponent : Int} {text other digits whole : List Char} {m n : Nat}

/-! ## Digits and their value -/

/-- The numbers `m` and `n` stand for the digits before these, whose count may differ. -/
theorem eq_of_ofDigitChars_eq (hd : ∀ c ∈ digits, c.isDigit = true)
    (ho : ∀ c ∈ other, c.isDigit = true) (hl : digits.length = other.length)
    (h : Nat.ofDigitChars 10 digits m = Nat.ofDigitChars 10 other n) : m = n ∧ digits = other := by
  induction digits generalizing other m n with
  | nil =>
    obtain rfl : other = [] := List.eq_nil_of_length_eq_zero hl.symm
    exact ⟨h, rfl⟩
  | cons c digits ih =>
    obtain ⟨e, other, rfl⟩ := List.exists_cons_of_length_eq_add_one hl.symm
    rw [List.forall_mem_cons] at hd ho
    rw [Nat.ofDigitChars_cons, Nat.ofDigitChars_cons, show ('0').toNat = 48 from rfl] at h
    obtain ⟨hv, rfl⟩ := ih hd.2 ho.2 (Nat.succ.inj hl) h
    have hc : 48 ≤ c.toNat ∧ c.toNat ≤ 57 := Char.isDigit_iff_toNat.mp hd.1
    have he : 48 ≤ e.toNat ∧ e.toNat ≤ 57 := Char.isDigit_iff_toNat.mp ho.1
    obtain rfl : c = e := Char.toNat_inj.mp (by omega)
    exact ⟨by omega, rfl⟩

/-- Digits that do not begin with zero denote at least a one and as many zeros. -/
theorem ten_pow_le_ofDigitChars {c : Char} (hc : c.isDigit = true) (hz : c ≠ '0') :
    10 ^ digits.length ≤ Nat.ofDigitChars 10 (c :: digits) 0 := by
  have hd : 48 ≤ c.toNat ∧ c.toNat ≤ 57 := Char.isDigit_iff_toNat.mp hc
  have hn : c.toNat ≠ 48 := fun h => hz (Char.toNat_inj.mp h)
  rw [Nat.ofDigitChars_cons, Nat.ofDigitChars_eq_ofDigitChars_zero, show ('0').toNat = 48 from rfl]
  calc 10 ^ digits.length
      ≤ 10 ^ digits.length * (10 * 0 + (c.toNat - 48)) := Nat.le_mul_of_pos_right _ (by omega)
    _ ≤ _ := Nat.le_add_right _ _

theorem IsWhole.length_le (hw : IsWhole whole) (ho : IsWhole other)
    (h : Nat.ofDigitChars 10 whole 0 = Nat.ofDigitChars 10 other 0) :
    whole.length ≤ other.length := by
  have hpos := List.length_pos_iff.mpr ho.ne_nil
  rcases hw with rfl | ⟨hne, hz, hd⟩
  · exact hpos
  obtain ⟨c, digits, rfl⟩ := List.exists_cons_of_ne_nil hne
  have hle : 10 ^ digits.length ≤ Nat.ofDigitChars 10 (c :: digits) 0 :=
    ten_pow_le_ofDigitChars (hd c List.mem_cons_self) fun he => hz (by rw [he, List.head?_cons])
  have hlt := ofDigitChars_lt ho.isDigit 0
  rw [← h, Nat.zero_add, Nat.one_mul] at hlt
  exact (Nat.pow_lt_pow_iff_right (by decide)).mp (Nat.lt_of_le_of_lt hle hlt)

/-! ## Texts and their value -/

theorem signed_injective (negative : Bool) : Function.Injective (signed negative) := by
  cases negative
  · exact fun _ _ h => h
  · exact neg_injective

theorem IsPlain.eq_of_valueOf_eq (ht : IsPlain negative exponent text)
    (ho : IsPlain negative exponent other) (h : valueOf text = valueOf other) : text = other := by
  obtain ⟨whole, fraction, rfl, hw, hf, hl⟩ := ht
  obtain ⟨whole', fraction', rfl, hw', hf', hl'⟩ := ho
  have hlen : fraction.length = fraction'.length := by omega
  have hpow : (10 : ℚ) ^ fraction'.length ≠ 0 := pow_ne_zero _ (by norm_num)
  rw [valueOf_decimalText hw, valueOf_decimalText hw', hlen] at h
  have hv := signed_injective negative h
  rw [div_left_inj' hpow, Nat.cast_inj, Nat.ofDigitChars_append, Nat.ofDigitChars_append] at hv
  obtain ⟨hvalue, rfl⟩ := eq_of_ofDigitChars_eq hf hf' hlen hv
  have hlength := Nat.le_antisymm (hw.length_le hw' hvalue) (hw'.length_le hw hvalue.symm)
  obtain ⟨-, rfl⟩ := eq_of_ofDigitChars_eq hw.isDigit hw'.isDigit hlength hvalue
  rfl

/-- A text in plain notation has no mark of an exponent. -/
theorem IsPlain.char_cases (h : IsPlain negative exponent text) :
    ∀ c ∈ text, c = '-' ∨ c = '.' ∨ c.isDigit = true := by
  obtain ⟨whole, fraction, rfl, hw, hf, -⟩ := h
  intro c hc
  rcases List.mem_append.mp hc with hs | hc
  · split at hs
    · exact .inl (List.mem_singleton.mp hs)
    · cases hs
  rcases List.mem_append.mp hc with hc | hc
  · exact .inr (.inr (hw.isDigit c hc))
  split at hc
  · cases hc
  rcases List.mem_cons.mp hc with rfl | hc
  · exact .inr (.inl rfl)
  · exact .inr (.inr (hf c hc))

namespace Decimal

theorem isPlain_plain (negative : Bool) (coefficient : Nat) (exponent : Int) :
    IsPlain negative exponent (plain (finite negative coefficient exponent)) := by
  obtain ⟨whole, fraction, hd, hp⟩ := exists_digits coefficient exponent
  refine ⟨whole, fraction, hp negative, hd.isWhole, hd.isDigit, ?_⟩
  rw [hd.length]
  omega

/-- A finite decimal is written in plain notation, without a mark of an exponent, and the text
denotes its exact value. No other text in plain notation does. -/
theorem plain_keeps_value (negative : Bool) (coefficient : Nat) (exponent : Int) :
    IsPlain negative exponent (plain (finite negative coefficient exponent)) ∧
    (∀ c ∈ plain (finite negative coefficient exponent), c = '-' ∨ c = '.' ∨ c.isDigit = true) ∧
    valueOf (plain (finite negative coefficient exponent)) =
      signed negative (coefficient * 10 ^ exponent) ∧
    ∀ text, IsPlain negative exponent text →
      valueOf text = signed negative (coefficient * 10 ^ exponent) →
        text = plain (finite negative coefficient exponent) := by
  have hp := isPlain_plain negative coefficient exponent
  have hv := valueOf_plain negative coefficient exponent
  exact ⟨hp, hp.char_cases, hv, fun text ht h => ht.eq_of_valueOf_eq hp (h.trans hv.symm)⟩

-- The point stands left of the digits, and zeros are put between.
example : plain (finite true 25 (-4)) = ['-', '0', '.', '0', '0', '2', '5'] := by decide

end Decimal

end Calculator
