import Calculator.Proofs.Json.Grammar
import Calculator.Proofs.Json.Members
import Calculator.Proofs.Json.Outcome
import Calculator.Proofs.Text.Run

/-!
# Reading words, numbers and strings

Blanks, strings and the parts of a number are read as the grammar has them, each up to its end, and
so is every value that is neither a list nor an object. A number ends where its digits do, so what
comes after it must not go on with it.

* `Reader.string_of_spells`, `Reader.exists_spells`: strings;
* `Reader.unsigned_eq`: a number, by its parts;
* `Reader.accounts_scalar`, `Reader.yields_scalar`: values that are neither lists nor objects.
-/

namespace Calculator

namespace Json

namespace Reader

variable {text rest whole digits f e : List Char} {units : Utf16} {c : Char} {v : Nat} {power : Int}

/-! ## Words and blanks -/

theorem after?_eq_some {word : List Char} : after? word text = some rest ↔ text = word ++ rest := by
  rw [after?]
  split
  · rename_i h
    obtain ⟨left, rfl⟩ := List.isPrefixOf_iff_prefix.mp h
    simp
  · rename_i h
    simp only [reduceCtorEq, false_iff]
    rintro rfl
    exact h (List.isPrefixOf_iff_prefix.mpr (List.prefix_append _ _))

theorem after?_append (word rest : List Char) : after? word (word ++ rest) = some rest :=
  after?_eq_some.mpr rfl

theorem after?_cons (c : Char) (rest : List Char) : after? [c] (c :: rest) = some rest :=
  after?_append [c] rest

theorem isBlank_iff : isBlank c = true ↔ c ∈ [' ', '\t', '\n', '\r'] := by
  simp [isBlank, or_assoc]

theorem skipBlanks_append {blanks : List Char} (h : Blank blanks) (text : List Char) :
    skipBlanks (blanks ++ text) = skipBlanks text :=
  List.dropWhile_append_of_pos fun c hc => isBlank_iff.mpr (h c hc)

theorem skipBlanks_eq_self (h : ∀ c ∈ text.head?, isBlank c = false) : skipBlanks text = text := by
  cases text with
  | nil => rfl
  | cons c text => exact List.dropWhile_cons_of_neg (by simp [h c rfl])

theorem exists_blank (text : List Char) :
    ∃ blanks, Blank blanks ∧ text = blanks ++ skipBlanks text :=
  ⟨text.takeWhile isBlank, fun _ hc => isBlank_iff.mp (List.mem_takeWhile_imp hc),
    List.takeWhile_append_dropWhile.symm⟩

/-! ## Strings -/

theorem hexDigit?_ascii : ∀ n < 128,
    (∀ v < 16, hexDigit? (Char.ofNat n) = some v ↔ (Char.ofNat n).toLower = Nat.digitChar v) ∧
      (hexDigit? (Char.ofNat n)).all (· < 16) = true := by
  decide +kernel

theorem toNat_digitChar_lt : ∀ v < 16, (Nat.digitChar v).toNat < 128 := by decide

theorem hexDigit?_eq_some : hexDigit? c = some v ↔ IsHexDigit c v := by
  rcases Nat.lt_or_ge c.toNat 128 with hc | hc
  · obtain ⟨hiff, hall⟩ := hexDigit?_ascii c.toNat hc
    rw [Char.ofNat_toNat] at hiff hall
    constructor
    · intro h
      have hv : v < 16 := by simpa [h] using hall
      exact ⟨hv, (hiff v hv).mp h⟩
    · rintro ⟨hv, h⟩
      exact (hiff v hv).mpr h
  · -- Beyond ASCII there are no digits, and no character becomes one.
    have hle {d : Char} (hd : d.toNat < 128) : ¬ c.val ≤ d.val := fun h =>
      absurd (UInt32.le_iff_toNat_le.mp h) (Nat.not_le.mpr (Nat.lt_of_lt_of_le hd hc))
    have hd : c.isDigit = false :=
      Bool.and_eq_false_imp.mpr fun _ => decide_eq_false (hle (d := '9') (by decide))
    have hl : c.toLower = c := dif_neg fun h => hle (d := 'Z') (by decide) h.2
    rw [hexDigit?, if_neg (by simp [hd]), if_neg fun h => hle (d := 'f') (by decide) h.2,
      if_neg fun h => hle (d := 'F') (by decide) h.2]
    refine ⟨nofun, fun ⟨hv, h⟩ => ?_⟩
    rw [hl] at h
    exact absurd (toNat_digitChar_lt v hv) (Nat.not_lt.mpr (h ▸ hc))

theorem hexUnit?_eq_some {a b c d : Char} {unit : UInt16} :
    hexUnit? a b c d = some unit ↔ ∃ w x y z, IsHexDigit a w ∧ IsHexDigit b x ∧ IsHexDigit c y ∧
      IsHexDigit d z ∧ unit = UInt16.ofNat (((w * 16 + x) * 16 + y) * 16 + z) := by
  have hn (w x y z : Nat) :
      ((w * 16 + x) * 16 + y) * 16 + z = (w * 16 + x) * 256 + (y * 16 + z) := by omega
  simp only [hexUnit?, bind, Option.bind_eq_some_iff, hexDigit?_eq_some, pure, Option.some.injEq,
    hn]
  grind

theorem shortEscape?_eq_some {unit : UInt16} :
    shortEscape? c = some unit ↔ (c, unit) ∈ escapes := by
  rw [shortEscape?, lookup_eq_some_iff_mem (by decide)]
  simp only [shortEscapes, escapes, List.mem_cons]
  tauto

theorem ne_of_mem_escapes {unit : UInt16} (h : (c, unit) ∈ escapes) : c ≠ 'u' := by
  rintro rfl
  simp [escapes] at h

theorem string_of_spells (h : Spells units text) (rest : List Char) :
    string (text ++ '"' :: rest) = some (units, rest) := by
  induction h with
  | nil => rfl
  | plain hc hq hb _ ih =>
    rw [List.cons_append, string, ih]
    · simp [hc]
    · exact hq
    · exact fun _ _ _ _ _ he => absurd he hb
    · exact fun _ _ he => absurd he hb
  | short hc _ ih =>
    rw [List.cons_append, List.cons_append, string, shortEscape?_eq_some.mpr hc, ih]
    · rfl
    · exact fun _ _ _ _ _ he => absurd he (ne_of_mem_escapes hc)
  | numbered ha hb hc hd _ ih =>
    simp only [List.cons_append]
    rw [string, hexUnit?_eq_some.mpr ⟨_, _, _, _, ha, hb, hc, hd, rfl⟩, ih]
    rfl

theorem exists_spells (h : string text = some (units, rest)) :
    ∃ body, Spells units body ∧ text = body ++ '"' :: rest := by
  fun_induction string text generalizing units rest with
  | case1 => cases h
  | case2 rest =>
    cases h
    exact ⟨[], .nil, rfl⟩
  | case3 a b c d left ih =>
    simp only [bind, Option.bind_eq_some_iff, hexUnit?_eq_some] at h
    obtain ⟨unit, ⟨w, x, y, z, ha, hb, hc, hd, rfl⟩, ⟨more, left⟩, hs, he⟩ := h
    obtain ⟨body, hm, rfl⟩ := ih hs
    cases he
    exact ⟨_, .numbered ha hb hc hd hm, rfl⟩
  | case4 c left _ ih =>
    simp only [bind, Option.bind_eq_some_iff, shortEscape?_eq_some] at h
    obtain ⟨unit, hu, ⟨more, left⟩, hs, he⟩ := h
    obtain ⟨body, hm, rfl⟩ := ih hs
    cases he
    exact ⟨_, .short hu hm, rfl⟩
  | case5 c left hq _ hb ih =>
    simp only [bind, Option.bind_eq_some_iff] at h
    obtain ⟨_, hg, ⟨more, rest⟩, hs, he⟩ := h
    have hc : 0x20 ≤ c.toNat := by
      by_contra hc
      simp [guard, hc] at hg
    have hback : c ≠ '\\' := by
      rintro rfl
      cases left with
      | nil => cases hs
      | cons d left => exact hb d left rfl rfl
    obtain ⟨body, hm, rfl⟩ := ih hs
    cases he
    exact ⟨_, .plain hc hq hback hm, rfl⟩

/-! ## The parts of a number -/

theorem wholeDigits_append (hw : IsWhole whole) (hr : ∀ c ∈ rest.head?, c.isDigit = false) :
    wholeDigits (whole ++ rest) = some (whole, rest) := by
  rcases hw with rfl | ⟨hne, hz, hd⟩
  · rfl
  · obtain ⟨htake, hdrop⟩ := takeWhile_run_append hd hr
    rw [wholeDigits, htake, hdrop, if_neg hne]
    intro left h
    cases whole with
    | nil => exact hne rfl
    | cons c whole => exact hz (congrArg some (List.cons.inj h).1)

theorem isWhole_of_wholeDigits (h : wholeDigits text = some (whole, rest)) :
    IsWhole whole ∧ text = whole ++ rest := by
  unfold wholeDigits at h
  split at h
  · cases h
    exact ⟨.inl rfl, rfl⟩
  · rename_i hz
    split_ifs at h with hne
    cases h
    refine ⟨.inr ⟨hne, fun hh => ?_, fun c hc => List.mem_takeWhile_imp hc⟩,
      List.takeWhile_append_dropWhile.symm⟩
    cases text with
    | nil => exact hne rfl
    | cons c text =>
      rw [List.head?_takeWhile, List.head?_cons] at hh
      exact hz text (congrArg (· :: text) (by simpa using (Option.filter_eq_some_iff.mp hh).1))

theorem fraction?_append (h : IsDigits digits) (hr : ∀ c ∈ rest.head?, c.isDigit = false) :
    fraction? ('.' :: (digits ++ rest)) = some (digits, rest) := by
  obtain ⟨htake, hdrop⟩ := takeWhile_run_append h.2 hr
  simp only [fraction?, after?_cons, Option.bind_eq_bind, Option.bind_some, htake, hdrop, guard,
    h.1, ne_eq, not_false_eq_true, if_true]
  rfl

theorem exists_fractionText (h : fraction? text = some (digits, rest)) :
    ∃ f, f ≠ [] ∧ FractionText digits f ∧ text = f ++ rest := by
  simp only [fraction?, bind, Option.bind_eq_some_iff, after?_eq_some] at h
  obtain ⟨left, rfl, _, hg, he⟩ := h
  cases he
  have hne : left.takeWhile Char.isDigit ≠ [] := fun hn => by simp [guard, hn] at hg
  refine ⟨_, List.cons_ne_nil _ _, .present ⟨hne, fun c hc => List.mem_takeWhile_imp hc⟩, ?_⟩
  exact congrArg ('.' :: ·) List.takeWhile_append_dropWhile.symm

theorem fraction?_eq_none (h : ∀ c ∈ text.head?, c ≠ '.') : fraction? text = none := by
  cases hf : fraction? text with
  | none => rfl
  | some result =>
    obtain ⟨digits, rest⟩ := result
    obtain ⟨f, hne, ht, rfl⟩ := exists_fractionText hf
    cases ht with
    | absent => exact absurd rfl hne
    | present => exact absurd rfl (h _ rfl)

theorem exponentSign_append {sign : List Char} (hs : sign ∈ [[], ['+'], ['-']])
    (h : IsDigits digits) :
    exponentSign (sign ++ (digits ++ rest)) = (decide (sign = ['-']), digits ++ rest) := by
  obtain ⟨d, more, rfl⟩ := List.exists_cons_of_ne_nil h.1
  have hd : d.isDigit = true := h.2 d List.mem_cons_self
  simp only [List.mem_cons, List.not_mem_nil, or_false] at hs
  rcases hs with rfl | rfl | rfl
  · unfold exponentSign
    split
    · rename_i he
      cases he
      cases hd
    · rename_i he
      cases he
      cases hd
    · rfl
  · rfl
  · rfl

theorem exists_exponentSign (text : List Char) : ∃ sign ∈ [[], ['+'], ['-']],
    (exponentSign text).1 = decide (sign = ['-']) ∧ text = sign ++ (exponentSign text).2 := by
  unfold exponentSign
  split
  · exact ⟨['-'], by simp, rfl, rfl⟩
  · exact ⟨['+'], by simp, rfl, rfl⟩
  · exact ⟨[], by simp, rfl, rfl⟩

theorem exponent?_append (he : ExponentText power e) (hne : e ≠ [])
    (hr : ∀ c ∈ rest.head?, c.isDigit = false) : exponent? (e ++ rest) = some (power, rest) := by
  cases he with
  | absent => exact absurd rfl hne
  | @present mark sign digits hm hs h =>
    obtain ⟨htake, hdrop⟩ := takeWhile_run_append h.2 hr
    have ha : (after? ['e'] (mark :: (sign ++ digits) ++ rest)).or
        (after? ['E'] (mark :: (sign ++ digits) ++ rest)) = some (sign ++ (digits ++ rest)) := by
      simp only [List.mem_cons, List.not_mem_nil, or_false] at hm
      rw [List.cons_append, List.append_assoc]
      rcases hm with rfl | rfl
      · rw [after?_cons, Option.some_or]
      · exact after?_cons 'E' _
    simp only [exponent?, ha, Option.bind_eq_bind, Option.bind_some, exponentSign_append hs h,
      htake, hdrop, guard, h.1, ne_eq, not_false_eq_true, if_true, decide_eq_true_eq]
    rfl

theorem exists_exponentText (h : exponent? text = some (power, rest)) :
    ∃ e, e ≠ [] ∧ ExponentText power e ∧ text = e ++ rest := by
  simp only [exponent?, bind, Option.bind_eq_some_iff, Option.or_eq_some_iff, after?_eq_some] at h
  obtain ⟨left, hm, _, hg, he⟩ := h
  obtain ⟨sign, hs, hneg, hsign⟩ := exists_exponentSign left
  cases he
  have hne : (exponentSign left).2.takeWhile Char.isDigit ≠ [] :=
    fun hn => by simp [guard, hn] at hg
  have hd : IsDigits ((exponentSign left).2.takeWhile Char.isDigit) :=
    ⟨hne, fun c hc => List.mem_takeWhile_imp hc⟩
  have hl : left = sign ++ (exponentSign left).2.takeWhile Char.isDigit ++
      (exponentSign left).2.dropWhile Char.isDigit := by
    rw [List.append_assoc, List.takeWhile_append_dropWhile, ← hsign]
  obtain ⟨mark, hmark, rfl⟩ : ∃ mark ∈ ['e', 'E'], text = mark :: left := by
    rcases hm with h | ⟨-, h⟩
    · exact ⟨'e', by simp, h⟩
    · exact ⟨'E', by simp, h⟩
  simp only [hneg, decide_eq_true_eq]
  exact ⟨_, List.cons_ne_nil _ _, .present hmark hs hd, congrArg (mark :: ·) hl⟩

theorem exponent?_eq_none (h : ∀ c ∈ text.head?, c ∉ ['e', 'E']) : exponent? text = none := by
  cases he : exponent? text with
  | none => rfl
  | some result =>
    obtain ⟨power, rest⟩ := result
    obtain ⟨e, hne, ht, rfl⟩ := exists_exponentText he
    cases ht with
    | absent => exact absurd rfl hne
    | present hm => exact absurd hm (h _ rfl)

/-! ## Numbers -/

/-- Up to a blank, a comma, or a closing bracket or brace, a scalar is complete. -/
def Delimited (rest : List Char) : Prop :=
  ∀ c ∈ rest.head?, c ∈ [' ', '\t', '\n', '\r', ',', ']', '\x7d']

theorem Delimited.head (h : Delimited rest) :
    ∀ c ∈ rest.head?, c.isDigit = false ∧ c ≠ '.' ∧ c ∉ ['e', 'E'] := fun c hc =>
  forall_mem_of_all (p := fun c => c.isDigit = false ∧ c ≠ '.' ∧ c ∉ ['e', 'E']) (by decide) c
    (h c hc)

/-- An optional part of a text has been read, up to the rest; without the part there is a value for
it nevertheless. -/
def Finds {α : Type} (reader : List Char → Option (α × List Char)) (absent : α)
    (text part : List Char) (a : α) (rest : List Char) : Prop :=
  (reader text).getD (absent, text) = (a, rest) ∧ ((reader text).isNone = true ↔ part = [])

theorem finds_fraction (hf : FractionText digits f) (hr : ∀ c ∈ rest.head?, c.isDigit = false)
    (hp : ∀ c ∈ rest.head?, c ≠ '.') : Finds fraction? [] (f ++ rest) f digits rest := by
  cases hf with
  | absent =>
    rw [List.nil_append, Finds, fraction?_eq_none hp]
    simp
  | present hd =>
    rw [List.cons_append, Finds, fraction?_append hd hr]
    simp

theorem exists_finds_fraction (text : List Char) :
    ∃ digits f rest, FractionText digits f ∧ text = f ++ rest ∧
      Finds fraction? [] text f digits rest := by
  cases h : fraction? text with
  | none => exact ⟨[], [], text, .absent, rfl, by simp [Finds, h]⟩
  | some result =>
    obtain ⟨f, hne, hf, he⟩ := exists_fractionText h
    exact ⟨result.1, f, result.2, hf, he, by simp [Finds, h, hne]⟩

theorem finds_exponent (he : ExponentText power e) (hr : ∀ c ∈ rest.head?, c.isDigit = false)
    (hm : ∀ c ∈ rest.head?, c ∉ ['e', 'E']) : Finds exponent? 0 (e ++ rest) e power rest := by
  by_cases hne : e = []
  · subst hne
    cases he
    rw [List.nil_append, Finds, exponent?_eq_none hm]
    simp
  · rw [Finds, exponent?_append he hne hr]
    simp [hne]

theorem exists_finds_exponent (text : List Char) :
    ∃ power e rest, ExponentText power e ∧ text = e ++ rest ∧
      Finds exponent? 0 text e power rest := by
  cases h : exponent? text with
  | none => exact ⟨0, [], text, .absent, rfl, by simp [Finds, h]⟩
  | some result =>
    obtain ⟨e, hne, he, ht⟩ := exists_exponentText h
    exact ⟨result.1, e, result.2, he, ht, by simp [Finds, h, hne]⟩

variable {limit nesting : Nat} {negative : Bool} {value : Json}

/-- What is read of a number, once its parts are known. -/
theorem unsigned_eq {left after : List Char} (hw : wholeDigits text = some (whole, left))
    (hf : Finds fraction? [] left f digits after) (he : Finds exponent? 0 after e power rest) :
    unsigned limit negative text =
      if f ++ e = [] then (integerOf limit negative whole).map fun value => (value, rest)
      else .ok (number (.ofDecimal negative (Nat.ofDigitChars 10 (whole ++ digits) 0)
        (power - digits.length)), rest) := by
  simp only [unsigned, hw, found, bind, Except.bind, hf.1, he.1, Bool.and_eq_true, hf.2, he.2,
    List.append_eq_nil_iff]
  split
  · cases integerOf limit negative whole <;> rfl
  · rfl

/-- What is read after the sign of a number. -/
theorem accounts_unsigned (limit nesting : Nat) (negative : Bool) (text : List Char) :
    Accounts limit nesting (fun value body => ScalarText limit value (signText negative ++ body))
      text (unsigned limit negative text) := by
  cases h : wholeDigits text with
  | none =>
    rw [unsigned, h]
    trivial
  | some result =>
    obtain ⟨whole, left⟩ := result
    obtain ⟨hw, rfl⟩ := isWhole_of_wholeDigits h
    obtain ⟨digits, f, left, hf, rfl, hfinds⟩ := exists_finds_fraction left
    obtain ⟨power, e, rest, he, rfl, hends⟩ := exists_finds_exponent left
    rw [unsigned_eq h hfinds hends]
    split_ifs with hn
    · obtain ⟨rfl, rfl⟩ := List.append_eq_nil_iff.mp hn
      unfold integerOf
      split
      · rename_i hd
        exact ⟨[], whole, rest, rfl, hw.isDigit, hd⟩
      · rename_i hd
        exact ⟨whole, .integer negative hw (Nat.not_lt.mp hd), rfl⟩
    · exact ⟨whole ++ (f ++ e), .number negative hw hf he hn, by simp⟩

theorem unsigned_integer (hw : IsWhole whole) (hr : Delimited rest) :
    unsigned limit negative (whole ++ rest) =
      (integerOf limit negative whole).map fun value => (value, rest) := by
  have hd := wholeDigits_append hw fun c hc => (hr.head c hc).1
  have hf : Finds fraction? [] rest [] [] rest :=
    finds_fraction .absent (fun c hc => (hr.head c hc).1) fun c hc => (hr.head c hc).2.1
  have he : Finds exponent? 0 rest [] 0 rest :=
    finds_exponent .absent (fun c hc => (hr.head c hc).1) fun c hc => (hr.head c hc).2.2
  exact (unsigned_eq hd hf he).trans (if_pos rfl)

/-- An exponent ends a run of digits, and so does what comes after a number. -/
theorem head_exponentText (he : ExponentText power e) (hr : Delimited rest) :
    ∀ c ∈ (e ++ rest).head?, c.isDigit = false ∧ c ≠ '.' := by
  intro c hc
  cases he with
  | absent => exact ⟨(hr.head c hc).1, (hr.head c hc).2.1⟩
  | present hm =>
    obtain rfl := Option.some.inj hc
    exact forall_mem_of_all (p := fun c => c.isDigit = false ∧ c ≠ '.') (by decide) _ hm

theorem head_fractionText (hf : FractionText digits f)
    (hr : ∀ c ∈ rest.head?, c.isDigit = false) : ∀ c ∈ (f ++ rest).head?, c.isDigit = false := by
  intro c hc
  cases hf with
  | absent => exact hr c hc
  | present =>
    obtain rfl := Option.some.inj hc
    rfl

theorem unsigned_number (hw : IsWhole whole) (hf : FractionText digits f)
    (he : ExponentText power e) (hne : f ++ e ≠ []) (hr : Delimited rest) :
    unsigned limit negative (whole ++ (f ++ e) ++ rest) =
      .ok (number (.ofDecimal negative (Nat.ofDigitChars 10 (whole ++ digits) 0)
        (power - digits.length)), rest) := by
  have hh := head_exponentText he hr
  have hends : Finds exponent? 0 (e ++ rest) e power rest :=
    finds_exponent he (fun c hc => (hr.head c hc).1) fun c hc => (hr.head c hc).2.2
  have hfinds : Finds fraction? [] (f ++ (e ++ rest)) f digits (e ++ rest) :=
    finds_fraction hf (fun c hc => (hh c hc).1) fun c hc => (hh c hc).2
  have hd := wholeDigits_append hw (head_fractionText hf fun c hc => (hh c hc).1)
  rw [List.append_assoc, List.append_assoc, unsigned_eq hd hfinds hends, if_neg hne]

/-! ## Words -/

theorem exists_of_word? (h : word? text = some (value, rest)) :
    ∃ body, ScalarText limit value body ∧ text = body ++ rest := by
  obtain ⟨word, hm, hw⟩ := List.exists_of_findSome?_eq_some h
  obtain ⟨left, ha, he⟩ := Option.map_eq_some_iff.mp hw
  cases he
  refine ⟨word.1, ?_, after?_eq_some.mp ha⟩
  simp only [words, List.mem_cons, List.not_mem_nil, or_false] at hm
  rcases hm with rfl | rfl | rfl | rfl | rfl | rfl
  · exact .null
  · exact .true
  · exact .false
  · exact .nan
  · exact .infinity false
  · exact .infinity true

theorem word?_append {word : List Char} (h : (word, value) ∈ words) (rest : List Char) :
    word? (word ++ rest) = some (value, rest) := by
  simp only [words, List.mem_cons, List.not_mem_nil, or_false] at h
  rcases h with h | h | h | h | h | h <;> cases h <;> rfl

/-- No word begins like a string or like a number. -/
theorem word?_eq_none (h : c = '"' ∨ c.isDigit = true) : word? (c :: text) = none := by
  have hc : ∀ d ∈ ['n', 't', 'f', 'N', 'I', '-'], d ≠ c := by
    rintro d hm rfl
    exact forall_mem_of_all (p := fun c => ¬ (c = '"' ∨ c.isDigit = true)) (by decide) d hm h
  simp only [List.forall_mem_cons, List.not_mem_nil, false_imp_iff] at hc
  simp [word?, words, after?, hc]

theorem word?_minus_eq_none (h : c.isDigit = true) : word? ('-' :: c :: text) = none := by
  have hc : 'I' ≠ c := by
    rintro rfl
    cases h
  simp [word?, words, after?, hc]

/-! ## Scalars -/

/-- What is read as a value that is no list and no object. -/
theorem accounts_scalar (limit nesting : Nat) (text : List Char) :
    Accounts limit nesting (ScalarText limit) text (scalar limit text) := by
  unfold scalar
  split
  · rename_i result h
    exact exists_of_word? h
  · split
    · rename_i rest _
      cases h : string rest with
      | none => trivial
      | some result =>
        obtain ⟨body, hs, rfl⟩ := exists_spells h
        exact ⟨'"' :: (body ++ ['"']), .string hs, by simp⟩
    · rename_i rest _
      exact (accounts_unsigned limit nesting true rest).append ['-'] (Nat.le_add_right ..)
        fun value tail hv => hv
    · exact accounts_unsigned limit nesting false _

theorem scalar_digits (hc : c.isDigit = true) :
    scalar limit (c :: text) = unsigned limit false (c :: text) := by
  rw [scalar, word?_eq_none (.inr hc)]
  · rintro rest ⟨⟩
    cases hc
  · rintro rest ⟨⟩
    cases hc

/-- A number with a sign is read as one without it. -/
theorem scalar_signed (hw : IsWhole whole) (negative : Bool) (rest : List Char) :
    scalar limit (signText negative ++ (whole ++ rest)) =
      unsigned limit negative (whole ++ rest) := by
  obtain ⟨c, tail, rfl⟩ := List.exists_cons_of_ne_nil hw.ne_nil
  have hc : c.isDigit = true := hw.isDigit c List.mem_cons_self
  cases negative with
  | true =>
    simp only [signText, if_true, List.cons_append, List.nil_append, scalar,
      word?_minus_eq_none hc]
  | false => exact scalar_digits hc

/-- The text of a value that is no list and no object is read, unless it is an integer that is too
long. -/
theorem yields_scalar {digits : Nat} (h : ScalarText digits value text) (hr : Delimited rest) :
    Yields (digits ≤ limit) value rest (scalar limit (text ++ rest)) := by
  have hword {word : List Char} {value : Json} (hm : (word, value) ∈ words) :
      Yields (digits ≤ limit) value rest (scalar limit (word ++ rest)) := by
    unfold scalar
    rw [word?_append hm]
    exact .inl rfl
  cases h with
  | null | true | false | nan => exact hword (by simp [words])
  | infinity negative => cases negative <;> exact hword (by simp [words, signText])
  | string hs =>
    refine .inl ?_
    rw [List.cons_append, List.append_assoc, scalar, word?_eq_none (.inl rfl)]
    simp [string_of_spells hs, found]
  | @integer negative whole hw hd =>
    rw [List.append_assoc, scalar_signed hw, unsigned_integer hw hr, integerOf]
    by_cases hl : limit < whole.length
    · rw [if_pos hl]
      exact .inr ⟨by omega, .integerTooLong, by simp, rfl⟩
    · rw [if_neg hl]
      exact .inl rfl
  | number negative hw hf he hne =>
    rw [List.append_assoc, List.append_assoc, scalar_signed hw, ← List.append_assoc,
      unsigned_number hw hf he hne hr]
    exact .inl rfl

end Reader

end Json

end Calculator
