import Calculator.Proofs.Json.NumberText
import Calculator.Proofs.Json.Reading

/-!
# Written values are read back

Every value that is within limits is written as a text that denotes it, over several lines at any
level, so what has been written is read back as it was.

* `spells_escaped`, `scalarText_string`, `scalarText_integer`: the texts of strings and integers;
* `written_of_within`: the texts of lists and objects;
* `writeFault?_of_within`: nothing stops writing within limits;
* `read_indented`: writing and reading again.
-/

namespace Calculator

namespace Json

variable {limit n level : Nat} {v : Json} {units : Utf16} {unit : UInt16} {text blanks : List Char}

/-! ## Strings -/

theorem isHexDigit_digitChar {v : Nat} (h : v < 16) : IsHexDigit (Nat.digitChar v) v :=
  ⟨h, (by decide : ∀ v < 16, (Nat.digitChar v).toLower = Nat.digitChar v) v h⟩

/-- A number of sixteen bits has four hexadecimal digits. -/
theorem hexDigits_four {m : Nat} (h : m < 65536) :
    hexDigits 4 m = [Nat.digitChar (m / 16 / 16 / 16), Nat.digitChar (m / 16 / 16 % 16),
      Nat.digitChar (m / 16 % 16), Nat.digitChar (m % 16)] := by
  have hsmall {k : Nat} (hk : k < 16) : Nat.toDigits 16 k = [Nat.digitChar k] := by
    rw [Nat.toDigits_eq_if (by decide), if_pos hk]
  have hlarge {k : Nat} (hk : 16 ≤ k) :
      Nat.toDigits 16 k = Nat.toDigits 16 (k / 16) ++ [Nat.digitChar (k % 16)] := by
    rw [Nat.toDigits_eq_if (by decide), if_neg (Nat.not_lt.mpr hk)]
  have hzero : Nat.digitChar 0 = '0' := rfl
  unfold hexDigits
  rcases Nat.lt_or_ge m 16 with h₁ | h₁
  · rw [hsmall h₁, Nat.div_eq_of_lt h₁, Nat.mod_eq_of_lt h₁]
    rfl
  rw [hlarge h₁]
  rcases Nat.lt_or_ge (m / 16) 16 with h₂ | h₂
  · rw [hsmall h₂, Nat.div_eq_of_lt h₂, Nat.mod_eq_of_lt h₂]
    rfl
  rw [hlarge h₂]
  rcases Nat.lt_or_ge (m / 16 / 16) 16 with h₃ | h₃
  · rw [hsmall h₃, Nat.div_eq_of_lt h₃, Nat.mod_eq_of_lt h₃]
    rfl
  rw [hlarge h₃, hsmall (by omega)]
  rfl

theorem utf16OfCode_of_val {code : CodePoint} (h : code.val = unit.toNat) :
    utf16OfCode code = [unit] := by
  have hlt : unit.toNat < 0x10000 := unit.toNat_lt
  rw [utf16OfCode, h, if_pos hlt, UInt16.ofNat_toNat]

/-- A visible ASCII character that is neither a quote nor a backslash stands for itself. -/
theorem spells_visible (hl : 0x20 ≤ unit.toNat) (hh : unit.toNat < 0x7f) (hq : unit ≠ 0x22)
    (hb : unit ≠ 0x5c) (h : Spells units text) :
    Spells (unit :: units) (Char.ofNat unit.toNat :: text) := by
  have hc : (Char.ofNat unit.toNat).toNat = unit.toNat :=
    (by decide +kernel : ∀ n < 0x7f, (Char.ofNat n).toNat = n) _ hh
  have hother {code : UInt16} (hne : unit ≠ code) {c : Char} (hcode : c.toNat = code.toNat) :
      Char.ofNat unit.toNat ≠ c := fun he =>
    hne (UInt16.toNat_inj.mp (by rw [← hc, he, hcode]))
  have hu : utf16OfCode (codeOfChar (Char.ofNat unit.toNat)) = [unit] := utf16OfCode_of_val hc
  have hs := Spells.plain (by omega) (hother hq rfl) (hother hb rfl) h
  rwa [hu] at hs

theorem spells_hexDigits (unit : UInt16) (h : Spells units text) :
    Spells (unit :: units) ('\\' :: 'u' :: (hexDigits 4 unit.toNat ++ text)) := by
  have hlt : unit.toNat < 65536 := unit.toNat_lt
  have hs := Spells.numbered (isHexDigit_digitChar (v := unit.toNat / 16 / 16 / 16) (by omega))
    (isHexDigit_digitChar (Nat.mod_lt (unit.toNat / 16 / 16) (by decide)))
    (isHexDigit_digitChar (Nat.mod_lt (unit.toNat / 16) (by decide)))
    (isHexDigit_digitChar (Nat.mod_lt unit.toNat (by decide))) h
  have hv : ((unit.toNat / 16 / 16 / 16 * 16 + unit.toNat / 16 / 16 % 16) * 16 +
      unit.toNat / 16 % 16) * 16 + unit.toNat % 16 = unit.toNat := by omega
  rw [hv, UInt16.ofNat_toNat] at hs
  rw [hexDigits_four hlt]
  exact hs

theorem mem_escapes_of_find? {short : Char × UInt16}
    (h : shortEscapes.find? (fun short => short.2 == unit) = some short) :
    (short.1, unit) ∈ escapes := by
  have hm := List.mem_of_find?_eq_some h
  have he : short.2 = unit := by simpa using List.find?_some h
  rw [← he]
  simp only [shortEscapes, List.mem_cons, List.not_mem_nil, or_false] at hm
  simp only [escapes, List.mem_cons]
  tauto

/-- The units of a string are spelled as they are written. -/
theorem spells_escaped (units : Utf16) : Spells units (units.flatMap escaped) := by
  induction units with
  | nil => exact .nil
  | cons unit units ih =>
    rw [List.flatMap_cons]
    unfold escaped
    split
    · rename_i short h
      exact .short (mem_escapes_of_find? h) ih
    · rename_i h
      have hne {code : UInt16} (hm : code ∈ shortEscapes.map Prod.snd) : unit ≠ code := by
        rintro rfl
        obtain ⟨short, hs, he⟩ := List.mem_map.mp hm
        exact List.find?_eq_none.mp h short hs (beq_iff_eq.mpr he)
      split
      · rename_i hp
        simp only [Bool.and_eq_true, decide_eq_true_eq, UInt16.le_iff_toNat_le,
          UInt16.lt_iff_toNat_lt] at hp
        exact spells_visible hp.1 hp.2 (hne (by decide)) (hne (by decide)) ih
      · exact spells_hexDigits unit ih

/-! ## Scalars -/

theorem scalarText_integer {value : Int} (h : (Nat.toDigits 10 value.natAbs).length ≤ limit) :
    ScalarText limit (integer value) (integerText value) := by
  have hs := ScalarText.integer (decide (value < 0)) (isWhole_toDigits value.natAbs) h
  rw [Nat.ofDigitChars_ten_toDigits] at hs
  unfold integerText
  rcases lt_or_ge value 0 with hn | hn
  · have he : -(value.natAbs : Int) = value := by omega
    rw [decide_eq_true hn, if_pos rfl, he] at hs
    rwa [if_pos hn]
  · have he : (value.natAbs : Int) = value := by omega
    rw [decide_eq_false (Int.not_lt.mpr hn), if_neg Bool.false_ne_true, he] at hs
    rwa [if_neg (Int.not_lt.mpr hn)]

theorem scalarText_string {units : Units} (h : Unpaired units) :
    ScalarText limit (string units) (quotedString units) := by
  have hs : ScalarText limit (string (unitsOfUtf16 (utf16OfUnits units))) (quotedString units) :=
    .string (spells_escaped _)
  rwa [unitsOfUtf16_utf16OfUnits h] at hs

/-! ## Lists and objects -/

/-- At any level the value is written as a text that denotes it. -/
def Written (limit n : Nat) (v : Json) : Prop :=
  ∀ level, ∃ text, Denotes limit n (.value v) text ∧
    ∀ rest, v.indented level rest = text ++ rest

theorem written_scalar (h : ScalarText limit v text)
    (ht : ∀ level rest, v.indented level rest = text ++ rest) : Written limit n v :=
  fun level => ⟨text, .scalar h, ht level⟩

theorem blank_lineStart (level : Nat) : Blank (lineStart level) := by
  intro c hc
  rcases List.mem_cons.mp hc with rfl | hc
  · simp
  · rw [List.eq_of_mem_replicate hc]
    simp

theorem blank_nil : Blank [] := nofun

/-- A name is written as the quoted name of a member. -/
theorem nameText_quotedString {name : Units} (h : Unpaired name) (hb : Blank blanks) :
    NameText name (blanks ++ (quotedString name ++ [':'])) := by
  have hn := NameText.intro hb (spells_escaped (utf16OfUnits name)) blank_nil
  rw [unitsOfUtf16_utf16OfUnits h] at hn
  simpa [quotedString] using hn

/-- The items of a list are written with the start of a line before each, and what blanks follow the
last one belongs to it. -/
theorem written_items {items : List Json} (h : ∀ item ∈ items, Written limit n item)
    (hne : items ≠ []) (hb : Blank blanks) (level : Nat) :
    ∃ text, Denotes limit n (.items items) text ∧
      ∀ rest, indentedItems level items (blanks ++ rest) = text ++ rest := by
  induction items with
  | nil => exact absurd rfl hne
  | cons item items ih =>
    obtain ⟨text, hd, ht⟩ := h item List.mem_cons_self level
    cases items with
    | nil =>
      have hp := Denotes.padded (blank_lineStart level) hd hb
      exact ⟨_, .item hp, fun rest => by simp [indentedItems, ht]⟩
    | cons next items =>
      obtain ⟨more, hds, hts⟩ := ih (fun item hm => h item (List.mem_cons_of_mem _ hm)) (by simp)
      have hp := Denotes.padded (blank_lineStart level) hd blank_nil
      exact ⟨_, .items hp hds, fun rest => by simp [indentedItems, ht, hts]⟩

theorem written_members {members : Members} (hu : ∀ member ∈ members, Unpaired member.1)
    (h : ∀ member ∈ members, Written limit n member.2) (hne : members ≠ [])
    (hb : Blank blanks) (level : Nat) :
    ∃ text, Denotes limit n (.members members) text ∧
      ∀ rest, indentedMembers level members (blanks ++ rest) = text ++ rest := by
  have hspace : Blank [' '] := by simp [Blank]
  induction members with
  | nil => exact absurd rfl hne
  | cons member members ih =>
    obtain ⟨name, value⟩ := member
    obtain ⟨text, hd, ht⟩ := h (name, value) List.mem_cons_self level
    have hn := nameText_quotedString (hu (name, value) List.mem_cons_self) (blank_lineStart level)
    cases members with
    | nil =>
      have hp := Denotes.padded hspace hd hb
      exact ⟨_, .member hn hp, fun rest => by simp [indentedMembers, ht]⟩
    | cons next members =>
      obtain ⟨more, hds, hts⟩ :=
        ih (fun member hm => hu member (List.mem_cons_of_mem _ hm))
          (fun member hm => h member (List.mem_cons_of_mem _ hm)) (by simp)
      have hp := Denotes.padded hspace hd blank_nil
      exact ⟨_, .members hn hp hds, fun rest => by simp [indentedMembers, ht, hts]⟩

/-- A value within limits is written as a text that denotes it. -/
theorem written_of_within (h : Within limit n v) : Written limit n v := by
  induction h with
  | null => exact written_scalar .null fun _ _ => rfl
  | @bool n value =>
    cases value
    · exact written_scalar .false fun _ _ => rfl
    · exact written_scalar .true fun _ _ => rfl
  | integer h => exact written_scalar (scalarText_integer h) fun _ _ => rfl
  | number => exact written_scalar (scalarText_number limit _) fun _ _ => rfl
  | string h => exact written_scalar (scalarText_string h) fun _ _ => rfl
  | @array n items _ ih =>
    intro level
    by_cases hne : items = []
    · subst hne
      exact ⟨_, .emptyArray blank_nil, fun rest => rfl⟩
    · obtain ⟨text, hd, ht⟩ := written_items ih hne (blank_lineStart level) (level + 1)
      refine ⟨_, .array hd, fun rest => ?_⟩
      rw [indented, ht]
      · simp
      · exact hne
  | @object n members hn hu _ ih =>
    intro level
    by_cases hne : members = []
    · subst hne
      exact ⟨_, .emptyObject blank_nil, fun rest => rfl⟩
    · obtain ⟨text, hd, ht⟩ := written_members hu ih hne (blank_lineStart level) (level + 1)
      have ho := Denotes.object hd
      rw [overlay_nil hn] at ho
      refine ⟨_, ho, fun rest => ?_⟩
      rw [indented, ht]
      · simp
      · exact hne

/-! ## The limits of writing -/

theorem itemsFault?_eq_none_iff {items : List Json} :
    itemsFault? limit n items = none ↔ ∀ item ∈ items, item.writeFault? limit n = none := by
  induction items with
  | nil => simp [itemsFault?]
  | cons item items ih => simp [itemsFault?, Option.or_eq_none_iff, ih]

theorem membersFault?_eq_none_iff {members : Members} :
    membersFault? limit n members = none ↔
      ∀ member ∈ members, member.2.writeFault? limit n = none := by
  induction members with
  | nil => simp [membersFault?]
  | cons member members ih =>
    obtain ⟨name, value⟩ := member
    rw [membersFault?, Option.or_eq_none_iff, ih, List.forall_mem_cons]

/-- Nothing stops a value within limits from being written. -/
theorem writeFault?_of_within (h : Within limit n v) : v.writeFault? limit n = none := by
  induction h with
  | null | bool | number | string => simp only [writeFault?]
  | integer h => rw [writeFault?, if_neg (Nat.not_lt.mpr h)]
  | array _ ih => rw [writeFault?, itemsFault?_eq_none_iff.mpr ih]
  | object _ _ _ ih => rw [writeFault?, membersFault?_eq_none_iff.mpr ih]

/-! ## Reading what has been written -/

/-- What has been written is read back. -/
theorem read_indented {limits : Limits} (h : Within limits.digits limits.nesting v) :
    read limits (v.indented 0 []) = .ok v := by
  obtain ⟨text, hd, ht⟩ := written_of_within h 0
  rw [read_eq_ok_iff, ht, List.append_nil]
  have hp := Denotes.padded blank_nil hd blank_nil
  rwa [List.append_nil] at hp

end Json

end Calculator
