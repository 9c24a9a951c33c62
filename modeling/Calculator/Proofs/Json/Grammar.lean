import Calculator.Json.Reader
import Calculator.Proofs.Json.Members
import Calculator.Proofs.Number.DecimalText
import Calculator.Proofs.Text.Utf16

/-!
# The texts of values

Rule by rule, which texts denote a value: words, numbers, quoted strings, lists and objects, with
blanks between their parts. The rules count what a text may hold, so that `Json.IsText limits` is
about texts within limits, and a text that denotes a value at all does so within some limits.

`Json.Within` is about values instead: in every object a name stands once, no string holds a pair of
surrogates side by side, integers are not too long, and lists and objects are not nested too deeply.

* `Denotes.within`: a value that a text denotes is within the limits of the text.
-/

namespace Calculator

namespace Json

/-! ## Strings and numbers -/

/-- Nothing but spaces, tabulators and ends of lines. -/
def Blank (text : List Char) : Prop := ∀ c ∈ text, c ∈ [' ', '\t', '\n', '\r']

/-- A hexadecimal digit, in either case, and its value. -/
def IsHexDigit (c : Char) (value : Nat) : Prop := value < 16 ∧ c.toLower = Nat.digitChar value

/-- The characters that may follow a backslash, and the units for which they stand. -/
def escapes : List (Char × UInt16) :=
  [('"', 0x22), ('\\', 0x5c), ('/', 0x2f), ('b', 0x08), ('f', 0x0c), ('n', 0x0a), ('r', 0x0d),
    ('t', 0x09)]

/-- The text, between quotes, is a string in units of sixteen bits. -/
inductive Spells : Utf16 → List Char → Prop where
  | nil : Spells [] []
  | plain {c units text} (hc : 0x20 ≤ c.toNat) (hq : c ≠ '"') (hb : c ≠ '\\')
      (h : Spells units text) : Spells (utf16OfCode (codeOfChar c) ++ units) (c :: text)
  | short {c unit units text} (hc : (c, unit) ∈ escapes) (h : Spells units text) :
      Spells (unit :: units) ('\\' :: c :: text)
  | numbered {a b c d w x y z units text} (ha : IsHexDigit a w) (hb : IsHexDigit b x)
      (hc : IsHexDigit c y) (hd : IsHexDigit d z) (h : Spells units text) :
      Spells (UInt16.ofNat (((w * 16 + x) * 16 + y) * 16 + z) :: units)
        ('\\' :: 'u' :: a :: b :: c :: d :: text)

/-- At least one digit. -/
def IsDigits (digits : List Char) : Prop := digits ≠ [] ∧ ∀ c ∈ digits, c.isDigit = true

/-- A point and digits, or nothing. -/
inductive FractionText : List Char → List Char → Prop where
  | absent : FractionText [] []
  | present {digits} (h : IsDigits digits) : FractionText digits ('.' :: digits)

/-- An exponent, with or without a sign, or nothing. -/
inductive ExponentText : Int → List Char → Prop where
  | absent : ExponentText 0 []
  | present {mark sign digits} (hm : mark ∈ ['e', 'E']) (hs : sign ∈ [[], ['+'], ['-']])
      (h : IsDigits digits) :
      ExponentText
        (if sign = ['-'] then -(Nat.ofDigitChars 10 digits 0 : Int)
          else Nat.ofDigitChars 10 digits 0)
        (mark :: (sign ++ digits))

/-- The sign in front of a number. -/
def signText (negative : Bool) : List Char := if negative then ['-'] else []

/-- The text is a value that is neither a list nor an object. A number with neither a fraction nor
an exponent is an integer, of at most so many digits. -/
inductive ScalarText (digits : Nat) : Json → List Char → Prop where
  | null : ScalarText digits null "null".toList
  | true : ScalarText digits (bool true) "true".toList
  | false : ScalarText digits (bool false) "false".toList
  | nan : ScalarText digits (number .nan) "NaN".toList
  | infinity (negative : Bool) :
      ScalarText digits (number (.infinity negative)) (signText negative ++ "Infinity".toList)
  | string {units text} (h : Spells units text) :
      ScalarText digits (string (unitsOfUtf16 units)) ('"' :: (text ++ ['"']))
  | integer (negative : Bool) {whole} (hw : IsWhole whole) (hd : whole.length ≤ digits) :
      ScalarText digits
        (integer (if negative then -(Nat.ofDigitChars 10 whole 0 : Int)
          else Nat.ofDigitChars 10 whole 0))
        (signText negative ++ whole)
  | number (negative : Bool) {whole fraction f power e} (hw : IsWhole whole)
      (hf : FractionText fraction f) (he : ExponentText power e) (hne : f ++ e ≠ []) :
      ScalarText digits
        (number (.ofDecimal negative (Nat.ofDigitChars 10 (whole ++ fraction) 0)
          (power - fraction.length)))
        (signText negative ++ (whole ++ (f ++ e)))

/-! ## Lists and objects -/

/-- The quoted name of a member, with the colon after it. -/
inductive NameText : Units → List Char → Prop where
  | intro {units text before after} (hb : Blank before) (h : Spells units text) (ha : Blank after) :
      NameText (unitsOfUtf16 units) (before ++ '"' :: (text ++ '"' :: (after ++ [':'])))

/-- The parts of a text. -/
inductive Phrase where
  | value (value : Json)
  /-- A value with blanks around it. -/
  | padded (value : Json)
  /-- The items of a list that is not empty. -/
  | items (items : List Json)
  /-- The members of an object that is not empty, as they stand there. -/
  | members (members : Members)

/-- The text is a part of a text with integers of at most so many digits, and with at most so many
lists and objects around a value. Of members with one name the last value counts, in the place of
the first. -/
inductive Denotes (digits : Nat) : Nat → Phrase → List Char → Prop where
  | scalar {n value text} (h : ScalarText digits value text) :
      Denotes digits n (.value value) text
  | emptyArray {n blanks} (h : Blank blanks) :
      Denotes digits (n + 1) (.value (array [])) ('[' :: (blanks ++ [']']))
  | array {n items text} (h : Denotes digits n (.items items) text) :
      Denotes digits (n + 1) (.value (array items)) ('[' :: (text ++ [']']))
  | emptyObject {n blanks} (h : Blank blanks) :
      Denotes digits (n + 1) (.value (object [])) ('\x7b' :: (blanks ++ ['\x7d']))
  | object {n members text} (h : Denotes digits n (.members members) text) :
      Denotes digits (n + 1) (.value (object (overlay [] members)))
        ('\x7b' :: (text ++ ['\x7d']))
  | padded {n value before text after} (hb : Blank before)
      (h : Denotes digits n (.value value) text) (ha : Blank after) :
      Denotes digits n (.padded value) (before ++ (text ++ after))
  | item {n value text} (h : Denotes digits n (.padded value) text) :
      Denotes digits n (.items [value]) text
  | items {n value items text rest} (h : Denotes digits n (.padded value) text)
      (hs : Denotes digits n (.items items) rest) :
      Denotes digits n (.items (value :: items)) (text ++ ',' :: rest)
  | member {n name value start text} (hn : NameText name start)
      (h : Denotes digits n (.padded value) text) :
      Denotes digits n (.members [(name, value)]) (start ++ text)
  | members {n name value members start text rest} (hn : NameText name start)
      (h : Denotes digits n (.padded value) text)
      (hs : Denotes digits n (.members members) rest) :
      Denotes digits n (.members ((name, value) :: members)) (start ++ (text ++ ',' :: rest))

/-- The whole text denotes the value, within limits. -/
def IsText (limits : Limits) (value : Json) (text : List Char) : Prop :=
  Denotes limits.digits limits.nesting (.padded value) text

/-! ## Values within limits -/

/-- In every object of the value the names are distinct, no string in it holds a pair of surrogates
side by side, its integers have at most so many digits, and there are at most so many lists and
objects around any value in it. -/
inductive Within (digits : Nat) : Nat → Json → Prop where
  | null {n} : Within digits n null
  | bool {n value} : Within digits n (bool value)
  | integer {n value} (h : (Nat.toDigits 10 value.natAbs).length ≤ digits) :
      Within digits n (integer value)
  | number {n value} : Within digits n (number value)
  | string {n units} (h : Unpaired units) : Within digits n (string units)
  | array {n items} (h : ∀ item ∈ items, Within digits n item) :
      Within digits (n + 1) (array items)
  | object {n members} (hn : (members.map Prod.fst).Nodup)
      (hu : ∀ member ∈ members, Unpaired member.1)
      (h : ∀ member ∈ members, Within digits n member.2) : Within digits (n + 1) (object members)

variable {digits n m : Nat} {v : Json} {phrase : Phrase} {text : List Char}

/-- Within limits a value is also within greater ones. -/
theorem Within.mono (h : Within digits n v) (hm : n ≤ m) : Within digits m v := by
  induction h generalizing m with
  | null => exact .null
  | bool => exact .bool
  | integer h => exact .integer h
  | number => exact .number
  | string h => exact .string h
  | array _ ih =>
    obtain ⟨k, rfl⟩ := Nat.exists_eq_add_of_le' (Nat.le_trans (Nat.le_add_left 1 _) hm)
    exact .array fun item hi => ih item hi (Nat.le_of_succ_le_succ hm)
  | object hn hu _ ih =>
    obtain ⟨k, rfl⟩ := Nat.exists_eq_add_of_le' (Nat.le_trans (Nat.le_add_left 1 _) hm)
    exact .object hn hu fun member hi => ih member hi (Nat.le_of_succ_le_succ hm)

theorem ScalarText.within (h : ScalarText digits v text) : Within digits n v := by
  cases h with
  | null => exact .null
  | true | false => exact .bool
  | nan | infinity | number => exact .number
  | string => exact .string (unpaired_unitsOfUtf16 _)
  | integer negative hw hd =>
    refine .integer (Nat.le_trans ?_ hd)
    have hl := length_toDigits_ofDigitChars_le hw
    cases negative
    · exact hl
    · simpa using hl

theorem NameText.unpaired {name : Units} (h : NameText name text) : Unpaired name := by
  cases h with
  | intro => exact unpaired_unitsOfUtf16 _

/-- What a part denotes is within the limits. -/
def Phrase.IsWithin (digits n : Nat) : Phrase → Prop
  | .value v | .padded v => Within digits n v
  | .items list => ∀ item ∈ list, Within digits n item
  | .members list => ∀ member ∈ list, Unpaired member.1 ∧ Within digits n member.2

/-- What a text denotes is within the limits of the text. -/
theorem Denotes.within (h : Denotes digits n phrase text) : phrase.IsWithin digits n := by
  induction h with
  | scalar h => exact h.within
  | emptyArray => exact .array nofun
  | array _ ih => exact .array ih
  | emptyObject => exact .object List.nodup_nil nofun nofun
  | object _ ih =>
    have hall : ∀ member ∈ overlay [] _, _ := fun member hm =>
      ih member ((mem_of_mem_overlay hm).resolve_left List.not_mem_nil)
    exact .object (nodup_overlay _ List.nodup_nil) (fun member hm => (hall member hm).1)
      fun member hm => (hall member hm).2
  | padded _ _ _ ih => exact ih
  | item _ ih => simpa [Phrase.IsWithin] using ih
  | member hn _ ih => exact List.forall_mem_singleton.mpr ⟨hn.unpaired, ih⟩
  | items _ _ ih ihs => exact List.forall_mem_cons.mpr ⟨ih, ihs⟩
  | members hn _ _ ih ihs => exact List.forall_mem_cons.mpr ⟨⟨hn.unpaired, ih⟩, ihs⟩

end Json

end Calculator
