import Calculator.Text.Units
import Mathlib.Data.List.Chain

/-!
# Surrogate pairs

Written in units of sixteen bits and read again, a string is the same as before,
unless the first surrogate of a pair stands right before a second one: reading
joins these. So a string that has been read never holds such a pair.

* `unitsOfUtf16_utf16OfUnits`: strings that are read back as they were;
* `unpaired_unitsOfUtf16`: strings that have been read;
* `unpaired_unitsOfText`: a text is one of them.
-/

namespace Calculator

/-- No first surrogate of a pair stands right before a second one. -/
def Unpaired (units : Units) : Prop :=
  units.IsChain fun first second =>
    ¬ (isHighSurrogate first.val = true ∧ isLowSurrogate second.val = true)

instance : DecidablePred Unpaired := fun units =>
  inferInstanceAs (Decidable (units.IsChain _))

variable {units : Units} {unit low : UInt16} {code : CodePoint} {wide : Utf16}

/-! ## Units of sixteen bits -/

theorem unitsOfUtf16_of_not_high (h : isHighSurrogate unit.toNat = false) (wide : Utf16) :
    unitsOfUtf16 (unit :: wide) = codeOfUnit unit :: unitsOfUtf16 wide := by
  cases wide <;> simp [unitsOfUtf16, h]

theorem unitsOfUtf16_of_not_low (h : ∀ low ∈ wide.head?, isLowSurrogate low.toNat = false) :
    unitsOfUtf16 (unit :: wide) = codeOfUnit unit :: unitsOfUtf16 wide := by
  cases wide with
  | nil => rfl
  | cons low wide => simp [unitsOfUtf16, h low rfl]

theorem val_codeOfPair (hh : isHighSurrogate unit.toNat = true)
    (hl : isLowSurrogate low.toNat = true) :
    (codeOfPair unit low).val =
      0x10000 + (unit.toNat - 0xd800) * 0x400 + (low.toNat - 0xdc00) := by
  simp only [isHighSurrogate, isLowSurrogate, Bool.and_eq_true, decide_eq_true_eq] at hh hl
  rw [codeOfPair, Fin.val_ofNat, Nat.mod_eq_of_lt (by omega)]

/-- A code point takes one unit, or two that are a surrogate pair. -/
theorem utf16OfCode_cases (code : CodePoint) :
    (∃ unit : UInt16, unit.toNat = code.val ∧ utf16OfCode code = [unit]) ∨
      ∃ high low : UInt16, isHighSurrogate high.toNat = true ∧ isLowSurrogate low.toNat = true ∧
        codeOfPair high low = code ∧ utf16OfCode code = [high, low] := by
  have hlt := code.isLt
  unfold utf16OfCode
  split
  · rename_i h
    exact .inl ⟨_, UInt16.toNat_ofNat_of_lt' h, rfl⟩
  · have hh : (UInt16.ofNat (0xd800 + (code.val - 0x10000) / 0x400)).toNat =
        0xd800 + (code.val - 0x10000) / 0x400 :=
      UInt16.toNat_ofNat_of_lt' (by unfold UInt16.size; omega)
    have hl : (UInt16.ofNat (0xdc00 + (code.val - 0x10000) % 0x400)).toNat =
        0xdc00 + (code.val - 0x10000) % 0x400 :=
      UInt16.toNat_ofNat_of_lt' (by unfold UInt16.size; omega)
    have hhigh : isHighSurrogate
        (UInt16.ofNat (0xd800 + (code.val - 0x10000) / 0x400)).toNat = true := by
      simp only [isHighSurrogate, hh, Bool.and_eq_true, decide_eq_true_eq]
      omega
    have hlow : isLowSurrogate
        (UInt16.ofNat (0xdc00 + (code.val - 0x10000) % 0x400)).toNat = true := by
      simp only [isLowSurrogate, hl, Bool.and_eq_true, decide_eq_true_eq]
      omega
    refine .inr ⟨_, _, hhigh, hlow, Fin.ext ?_, rfl⟩
    rw [val_codeOfPair hhigh hlow, hh, hl]
    omega

theorem codeOfUnit_eq (h : unit.toNat = code.val) : codeOfUnit unit = code := Fin.ext h

/-! ## Writing and reading -/

theorem not_low_of_high {code : Nat} (h : isHighSurrogate code = true) :
    isLowSurrogate code = false := by
  simp only [isHighSurrogate, Bool.and_eq_true, decide_eq_true_eq] at h
  simp only [isLowSurrogate, Bool.and_eq_false_iff, decide_eq_false_iff_not]
  omega

/-- A string is written with a second surrogate first only if it begins with one. -/
theorem head?_utf16OfUnits (hl : ∀ code ∈ units.head?, isLowSurrogate code.val = false) :
    ∀ unit ∈ (utf16OfUnits units).head?, isLowSurrogate unit.toNat = false := by
  intro unit hu
  cases units with
  | nil => cases hu
  | cons code units =>
    rw [utf16OfUnits, List.flatMap_cons] at hu
    rcases utf16OfCode_cases code with ⟨first, hf, he⟩ | ⟨high, low, hh, -, -, he⟩
    · rw [he] at hu
      obtain rfl := Option.some.inj hu
      rw [hf]
      exact hl code rfl
    · rw [he] at hu
      obtain rfl := Option.some.inj hu
      exact not_low_of_high hh

/-- Without a pair of surrogates side by side, a string that is written is read back as it was; by
induction on the string. -/
theorem unitsOfUtf16_utf16OfUnits (h : Unpaired units) :
    unitsOfUtf16 (utf16OfUnits units) = units := by
  induction units with
  | nil => rfl
  | cons code units ih =>
    obtain ⟨hhead, htail⟩ := List.isChain_cons.mp h
    have hrest := ih htail
    have hw : utf16OfUnits (code :: units) = utf16OfCode code ++ utf16OfUnits units :=
      List.flatMap_cons
    rw [hw]
    rcases utf16OfCode_cases code with ⟨unit, hu, he⟩ | ⟨high, low, hh, hl, hp, he⟩
    · rw [he, List.singleton_append, ← codeOfUnit_eq hu]
      cases hs : isHighSurrogate unit.toNat with
      | false => rw [unitsOfUtf16_of_not_high hs, hrest]
      | true =>
        have hlow : ∀ code ∈ units.head?, isLowSurrogate code.val = false := fun next hn =>
          Bool.eq_false_iff.mpr fun hl => hhead next hn ⟨hu ▸ hs, hl⟩
        rw [unitsOfUtf16_of_not_low (head?_utf16OfUnits hlow), hrest]
    · rw [he, List.cons_append, List.singleton_append, unitsOfUtf16, hh, hl, Bool.and_self,
        if_pos rfl, hp, hrest]

/-- What has been read begins with a second surrogate only if it was written with one first. -/
theorem head?_unitsOfUtf16 (hl : ∀ unit ∈ wide.head?, isLowSurrogate unit.toNat = false) :
    ∀ code ∈ (unitsOfUtf16 wide).head?, isLowSurrogate code.val = false := by
  intro code hc
  fun_cases unitsOfUtf16 wide with
  | case1 => cases hc
  | case2 unit =>
    obtain rfl := Option.some.inj hc
    exact hl unit rfl
  | case3 high low rest hs =>
    rw [unitsOfUtf16, if_pos hs] at hc
    obtain rfl := Option.some.inj hc
    rw [Bool.and_eq_true] at hs
    have hv := val_codeOfPair hs.1 hs.2
    simp only [isLowSurrogate, Bool.and_eq_false_iff, decide_eq_false_iff_not]
    omega
  | case4 high low rest hs =>
    rw [unitsOfUtf16, if_neg hs] at hc
    obtain rfl := Option.some.inj hc
    exact hl high rfl

theorem unpaired_unitsOfUtf16 (wide : Utf16) : Unpaired (unitsOfUtf16 wide) := by
  fun_induction unitsOfUtf16 wide with
  | case1 => exact .nil
  | case2 unit => exact .singleton _
  | case3 high low rest hs ih =>
    refine List.isChain_cons.mpr ⟨fun next _ hn => ?_, ih⟩
    rw [Bool.and_eq_true] at hs
    have hv := val_codeOfPair hs.1 hs.2
    simp only [isHighSurrogate, Bool.and_eq_true, decide_eq_true_eq] at hn
    omega
  | case4 high low rest hs ih =>
    refine List.isChain_cons.mpr ⟨fun next hm hn => ?_, ih⟩
    have hlow : isLowSurrogate low.toNat = false := by
      cases hl : isLowSurrogate low.toNat with
      | false => rfl
      | true => exact absurd (Bool.and_eq_true_iff.mpr ⟨hn.1, hl⟩) hs
    have hfirst : ∀ unit ∈ (low :: rest).head?, isLowSurrogate unit.toNat = false := by
      intro unit hu
      obtain rfl := Option.some.inj hu
      exact hlow
    rw [head?_unitsOfUtf16 hfirst next hm] at hn
    exact nomatch hn.2

/-! ## Texts -/

theorem not_high_char (c : Char) : isHighSurrogate c.toNat = false := by
  simp only [isHighSurrogate, Bool.and_eq_false_iff, decide_eq_false_iff_not]
  rcases c.valid with h | ⟨h, -⟩
  · exact .inl (Nat.not_le.mpr h)
  · exact .inr (Nat.not_lt.mpr (Nat.le_trans (by decide) h))

theorem unpaired_unitsOfText (text : List Char) : Unpaired (unitsOfText text) := by
  induction text with
  | nil => exact .nil
  | cons c text ih =>
    refine List.isChain_cons.mpr ⟨fun next _ hn => ?_, ih⟩
    rw [codeOfChar, not_high_char] at hn
    exact nomatch hn.1

end Calculator
