import Calculator.Proofs.Equation.Placement

/-!
# Which texts are typed as they stand

A text is typed character by character. A character is added at the end unless a rule of typing
changes what is there: an operator is refused at the beginning and takes the place of another one,
and a point may need a zero beside it.

The first two rules drop a character and the third adds one, so in a long text they might make up
for each other. They do not: what is typed has no operator at its beginning and no two side by side,
so if it is the text itself, only zeros can have been added, and then it is longer than the text.

* `Equation.typeToken_of_mayFollow`: what one character does;
* `Equation.TypedAs.typeToken`, `Line.typedAs_typeText`: what one character, and a text, do as long
  as no operator is refused;
* `Line.typeText_eq_self_iff`: the texts that are typed as they stand.
-/

namespace Calculator

namespace Equation

/-- The point at the end of the equation needs a zero before the character is added: one after it,
if the point follows a digit and an operator is added; one before it, if it does not and a digit is
added. -/
def NeedsZero (equation : List Char) (c : Char) : Prop :=
  equation.getLast? = some '.' ∧
    if (beforeLast? equation).any Char.isDigit then Operator.isBinaryChar c = true
    else c.isDigit = true

instance (equation : List Char) (c : Char) : Decidable (NeedsZero equation c) :=
  inferInstanceAs (Decidable (_ ∧ _))

/-- No character of the text is refused as an operator, and none needs a zero before it. -/
def Faithful (text : List Char) : Prop :=
  Placed text ∧ ∀ before c, before ++ [c] <+: text → ¬ NeedsZero before c

variable {equation text edited : List Char} {c : Char}

/-! ## One character -/

theorem completeNumber_of_needsZero (h : NeedsZero equation c) :
    ∃ start, completeNumber equation [c] = some (start ++ [c]) ∧
      start.length = equation.length + 1 := by
  obtain ⟨hp, hz⟩ := h
  have hl : 0 < equation.length := by
    obtain ⟨before, rfl⟩ := List.getLast?_eq_some_iff.mp hp
    simp
  rw [completeNumber, if_pos hp]
  split
  · rename_i hd
    rw [if_pos hd] at hz
    rw [Operator.isBinary_singleton, if_pos hz]
    exact ⟨equation ++ ['0'], by simp, by simp⟩
  · rename_i hd
    rw [if_neg hd] at hz
    rw [show isDigitText [c] = true from hz, if_pos rfl]
    refine ⟨equation.dropLast ++ ['0', '.'], by simp, ?_⟩
    simp only [List.length_append, List.length_dropLast, List.length_cons, List.length_nil]
    omega

theorem completeNumber_of_not_needsZero (h : ¬ NeedsZero equation c) :
    completeNumber equation [c] = none ∨ completeNumber equation [c] = some (equation ++ [c]) := by
  unfold completeNumber
  split
  · rename_i hp
    split
    · rename_i hd
      have ho : Operator.isBinary [c] = false := by
        rw [Operator.isBinary_singleton]
        exact Bool.eq_false_iff.mpr fun ho => h ⟨hp, by rwa [if_pos hd]⟩
      rw [ho, if_neg Bool.false_ne_true]
      split
      · exact .inr rfl
      · exact .inl rfl
    · rename_i hd
      have hc : isDigitText [c] = false :=
        Bool.eq_false_iff.mpr fun hc => h ⟨hp, by rwa [if_neg hd]⟩
      rw [hc]
      exact .inl rfl
  · exact .inl rfl

theorem swapOperator_of_mayFollow (hne : equation ≠ []) (hf : MayFollow (tip equation) c) :
    swapOperator equation [c] = .ok none := by
  obtain ⟨before, a, rfl⟩ := (List.eq_nil_or_concat' equation).resolve_left hne
  rw [tip_append] at hf
  have ho : (Operator.isBinaryChar a && Operator.isBinary [c]) = false := by
    rw [Operator.isBinary_singleton]
    cases ha : Operator.isBinaryChar a with
    | false => rfl
    | true => rw [hf.1 ha]; rfl
  rw [swapOperator, last_append]
  simp only [bind, Except.bind, pure, Except.pure, ho, Bool.false_eq_true, if_false]

/-- A character that may follow is added at the end. If it needs a zero, the zero makes what stands
before it longer by one; else nothing before it changes. -/
theorem typeToken_of_mayFollow (hne : equation ≠ []) (hb : equation ≠ blank)
    (hf : MayFollow (tip equation) c) :
    ∃ start, typeToken equation [c] = .ok (start ++ [c]) ∧
      if NeedsZero equation c then start.length = equation.length + 1 else start = equation := by
  rw [typeToken, if_neg hb]
  split_ifs with hz
  · obtain ⟨start, hs, hl⟩ := completeNumber_of_needsZero hz
    exact ⟨start, by rw [hs], hl⟩
  · refine ⟨equation, ?_, rfl⟩
    rcases completeNumber_of_not_needsZero hz with hn | hs
    · rw [hn, swapOperator_of_mayFollow hne hf]
      rfl
    · rw [hs]

theorem typeToken_blank (hc : Operator.isBinaryChar c = false) :
    typeToken blank [c] = .ok [c] := by
  rw [typeToken, if_pos rfl, Operator.isBinary_singleton, hc]
  rfl

/-! ## Faithful texts -/

theorem faithful_nil : Faithful [] := by
  refine ⟨List.isChain_singleton _, fun before c h => ?_⟩
  exact absurd (List.prefix_nil.mp h) (by simp)

theorem placed_concat : Placed (text ++ [c]) ↔ Placed text ∧ MayFollow (tip text) c := by
  rw [placed_append, and_iff_left (List.isChain_singleton c)]

theorem faithful_concat :
    Faithful (text ++ [c]) ↔ Faithful text ∧ MayFollow (tip text) c ∧ ¬ NeedsZero text c := by
  constructor
  · rintro ⟨hp, hz⟩
    obtain ⟨hp, hf⟩ := placed_concat.mp hp
    refine ⟨⟨hp, fun before d h => hz before d ?_⟩, hf, hz text c List.prefix_rfl⟩
    exact h.trans (List.prefix_append text [c])
  · rintro ⟨⟨hp, hz⟩, hf, hc⟩
    refine ⟨placed_concat.mpr ⟨hp, hf⟩, fun before d h => ?_⟩
    rcases List.prefix_concat_iff.mp h with h | h
    · obtain ⟨rfl, hd⟩ := List.append_inj' h rfl
      rw [List.singleton_inj.mp hd]
      exact hc
    · exact hz before d h

theorem ofTyped_ofTyped (text : List Char) : ofTyped (ofTyped text) = ofTyped text := by
  rcases eq_or_ne text [] with rfl | hne
  · rfl
  · rw [ofTyped_of_ne_nil hne, ofTyped_of_ne_nil hne]

/-- What is typed of a text in which no operator is refused: the text itself if it is faithful, and
else a longer one with the same last character. -/
def TypedAs (text equation : List Char) : Prop :=
  Faithful text ∧ equation = ofTyped text ∨
    ¬ Faithful text ∧ text.length < equation.length ∧ tip equation = tip text

theorem typedAs_of_faithful (hfa : Faithful text) (hs : ' ' ∉ text) (hf : MayFollow (tip text) c)
    (ht : typeToken (ofTyped text) [c] = .ok edited) : TypedAs (text ++ [c]) edited := by
  rcases eq_or_ne text [] with rfl | hne
  · have hn : ¬ NeedsZero [] c := fun h => absurd h.1 (by decide)
    rw [show ofTyped [] = blank from rfl, typeToken_blank (hf.1 (by decide))] at ht
    exact .inl ⟨faithful_concat.mpr ⟨hfa, hf, hn⟩, (Except.ok.inj ht).symm⟩
  · have hb : text ≠ blank := fun h => hs (h ▸ List.mem_singleton_self ' ')
    obtain ⟨start, hst, hz⟩ := typeToken_of_mayFollow hne hb hf
    rw [ofTyped_of_ne_nil hne, hst] at ht
    obtain rfl := Except.ok.inj ht
    rw [TypedAs, faithful_concat]
    split_ifs at hz with hn
    · refine .inr ⟨fun h => h.2.2 hn, ?_, by rw [tip_append, tip_append]⟩
      simp only [List.length_append, List.length_singleton]
      omega
    · refine .inl ⟨⟨hfa, hf, hn⟩, ?_⟩
      rw [hz, ofTyped_of_ne_nil (by simp)]

/-- What is longer than the text is not blank, and stays longer. -/
theorem typedAs_of_longer (hfa : ¬ Faithful text) (hl : text.length < equation.length)
    (hf : MayFollow (tip equation) c) (ht : typeToken (ofTyped equation) [c] = .ok edited) :
    TypedAs (text ++ [c]) edited := by
  have hpos : 0 < text.length := List.length_pos_iff.mpr fun h => hfa (h ▸ faithful_nil)
  have hne : equation ≠ [] := List.length_pos_iff.mp (by omega)
  have hb : equation ≠ blank := by
    rintro rfl
    simp only [blank, List.length_singleton] at hl
    omega
  obtain ⟨start, hst, hz⟩ := typeToken_of_mayFollow hne hb hf
  rw [ofTyped_of_ne_nil hne, hst] at ht
  obtain rfl := Except.ok.inj ht
  have hle : equation.length ≤ start.length := by
    split_ifs at hz
    · omega
    · rw [hz]
  refine .inr ⟨fun h => hfa (faithful_concat.mp h).1, ?_, by rw [tip_append, tip_append]⟩
  simp only [List.length_append, List.length_singleton]
  omega

/-- What one more character preserves. -/
theorem TypedAs.typeToken (h : TypedAs text equation) (hs : ' ' ∉ text)
    (hf : MayFollow (tip text) c) (ht : typeToken (ofTyped equation) [c] = .ok edited) :
    TypedAs (text ++ [c]) edited := by
  rcases h with ⟨hfa, rfl⟩ | ⟨hfa, hl, htip⟩
  · rw [ofTyped_ofTyped] at ht
    exact typedAs_of_faithful hfa hs hf ht
  · exact typedAs_of_longer hfa hl (htip ▸ hf) ht

/-! ## The condition on texts -/

/-- Without powers, a text is placed if it does not begin with an operator and no two operators
stand side by side in it. -/
theorem placed_iff (hp : '^' ∉ text) :
    Placed text ↔ (∀ c ∈ text.head?, Operator.isBinaryChar c = false) ∧
      ∀ a b, [a, b] <:+: text →
        ¬ (Operator.isBinaryChar a = true ∧ Operator.isBinaryChar b = true) := by
  have hf : ∀ {a b}, b ∈ text →
      (MayFollow a b ↔ ¬ (Operator.isBinaryChar a = true ∧ Operator.isBinaryChar b = true)) := by
    intro a b hb
    have hn : b = '^' → takesPower a = true := by
      rintro rfl
      exact absurd hb hp
    rw [MayFollow, and_iff_left hn, not_and, Bool.not_eq_true]
  rw [Placed, List.isChain_cons, List.isChain_iff_forall_rel_of_append_cons_cons]
  refine and_congr (forall₂_congr fun c hc => ?_)
    ⟨fun h a b hi => ?_, fun h a b before after e => ?_⟩
  · rw [hf (List.mem_of_mem_head? hc), not_and, Bool.not_eq_true]
    exact forall_prop_of_true rfl
  · obtain ⟨before, after, e⟩ := hi
    have hb : b ∈ text := e ▸ by simp
    have he : text = before ++ a :: b :: after := by rw [← e]; simp
    exact (hf hb).mp (h he)
  · have hb : b ∈ text := e ▸ by simp
    exact (hf hb).mpr (h a b ⟨before, after, by rw [e]; simp⟩)

/-- No character of a text needs a zero if each point that a digit follows also follows one, and no
operator follows a point that does. -/
theorem forall_not_needsZero_iff :
    (∀ before c, before ++ [c] <+: text → ¬ NeedsZero before c) ↔
      (∀ before c after, text = before ++ '.' :: c :: after → c.isDigit = true →
        ∃ d ∈ before.getLast?, d.isDigit = true) ∧
      ∀ d c, [d, '.', c] <:+: text → d.isDigit = true → Operator.isBinaryChar c = false := by
  have hz : ∀ before c, NeedsZero (before ++ ['.']) c ↔
      if before.getLast?.any Char.isDigit then Operator.isBinaryChar c = true
      else c.isDigit = true := by
    intro before c
    rw [NeedsZero, beforeLast?, List.dropLast_concat, List.getLast?_concat, and_iff_right rfl]
  constructor
  · intro h
    refine ⟨fun before c after e hc => ?_, fun d c hi hd => ?_⟩
    · have hn := h (before ++ ['.']) c ⟨after, by rw [e]; simp⟩
      rw [hz] at hn
      by_contra hb
      refine hn ?_
      rw [if_neg]
      · exact hc
      · rw [Option.any_eq_true]
        exact hb
    · obtain ⟨before, after, e⟩ := hi
      have hn := h (before ++ [d] ++ ['.']) c ⟨after, by rw [← e]; simp⟩
      rw [hz, List.getLast?_concat, Option.any_some, if_pos hd] at hn
      exact Bool.eq_false_iff.mpr hn
  · rintro ⟨h₁, h₂⟩ before c ⟨after, e⟩ hn
    obtain ⟨before, rfl⟩ := List.getLast?_eq_some_iff.mp hn.1
    rw [hz] at hn
    split at hn
    · rename_i hl
      obtain ⟨d, hl, hd⟩ := (Option.any_eq_true _ _).mp hl
      obtain ⟨before, rfl⟩ := List.getLast?_eq_some_iff.mp hl
      have ho := h₂ d c ⟨before, after, by rw [← e]; simp⟩ hd
      rw [ho] at hn
      cases hn
    · rename_i hl
      rw [Option.any_eq_true] at hl
      exact hl (h₁ before c after (by rw [← e]; simp) hn)

end Equation

namespace Line

open Equation

/-- The characters that a keyboard types into an equation. -/
def typable : List Char :=
  ['0', '1', '2', '3', '4', '5', '6', '7', '8', '9', '.', '(', ')', '+', '-', '*', '/']

section

variable [Host]

/-- The line after a character is typed. -/
def type (line : Line) (c : Char) : Line := line.apply (Key.ofToken? [c])

/-- The line after a text is typed, character by character. -/
def typeText (line : Line) (text : List Char) : Line := text.foldl type line

variable {line : Line} {text : List Char} {c : Char}

/-! ## A text -/

/-- A character is typed by the key that adds it. -/
theorem exists_key_of_typable (hc : c ∈ typable) :
    ∃ key, Key.ofToken? [c] = some key ∧ ∀ line : Line, ∃ error,
      editTyped line key = do return ⟨← typeToken line.equation [c], error⟩ := by
  simp only [typable, List.mem_cons, List.not_mem_nil, or_false] at hc
  rcases hc with rfl | rfl | rfl | rfl | rfl | rfl | rfl | rfl | rfl | rfl | rfl | rfl | rfl | rfl |
    rfl | rfl | rfl <;> exact ⟨_, rfl, fun _ => ⟨_, rfl⟩⟩

theorem typeToken_eq_type (hc : c ∈ typable) (line : Line) :
    typeToken (ofTyped line.equation) [c] = .ok (line.type c).equation := by
  obtain ⟨key, hk, he⟩ := exists_key_of_typable hc
  obtain ⟨error, he⟩ := he ⟨ofTyped line.equation, line.error⟩
  have h := edit?_eq_ok line key
  rw [edit?, he] at h
  obtain ⟨equation, ht, hl⟩ := exists_rule_of_ok h
  rw [ht, type, hk, apply, ← hl]

theorem typeText_concat (line : Line) (text : List Char) (c : Char) :
    line.typeText (text ++ [c]) = (line.typeText text).type c := by
  rw [typeText, List.foldl_append]
  rfl

theorem placed_typeText (text : List Char) : Placed (initial.typeText text).equation := by
  have h : Placed initial.equation := placed_blank
  have h := placed_foldl h (text.map fun c => Key.ofToken? [c])
  rw [List.foldl_map] at h
  exact h

/-- What a run of characters preserves, by induction on the text from its end. -/
theorem typedAs_typeText (hk : ∀ c ∈ text, c ∈ typable) (hp : Placed text) :
    TypedAs text (initial.typeText text).equation := by
  induction text using List.reverseRecOn with
  | nil => exact .inl ⟨faithful_nil, rfl⟩
  | append_singleton text c ih =>
    obtain ⟨hp, hf⟩ := placed_concat.mp hp
    have hkt : ∀ c ∈ text, c ∈ typable := fun d hd => hk d (List.mem_append_left _ hd)
    have hs : ' ' ∉ text := fun h => absurd (hkt _ h) (by decide)
    have ht := typeToken_eq_type (hk c (by simp)) (initial.typeText text)
    rw [typeText_concat]
    exact (ih hkt hp).typeToken hs hf ht

theorem typeText_eq_ofTyped_iff (hk : ∀ c ∈ text, c ∈ typable) :
    (initial.typeText text).equation = ofTyped text ↔ Faithful text := by
  constructor
  · intro he
    have hp : Placed text := by
      rcases eq_or_ne text [] with rfl | hne
      · exact faithful_nil.1
      · have h := placed_typeText text
        rwa [he, ofTyped_of_ne_nil hne] at h
    rcases typedAs_typeText hk hp with h | ⟨hf, hl, -⟩
    · exact h.1
    · have hne : text ≠ [] := fun h => hf (h ▸ faithful_nil)
      rw [he, ofTyped_of_ne_nil hne] at hl
      exact absurd hl (Nat.lt_irrefl _)
  · intro hf
    exact ((typedAs_typeText hk hf.1).resolve_right fun h => h.1 hf).2

/-- A text is typed as it stands exactly if it does not begin with an operator, no two operators
stand side by side, each point that a digit follows also follows a digit, and no operator follows a
point that follows a digit. -/
theorem typeText_eq_self_iff (hne : text ≠ []) (hk : ∀ c ∈ text, c ∈ typable) :
    (initial.typeText text).equation = text ↔
      (∀ c ∈ text.head?, Operator.isBinaryChar c = false) ∧
      (∀ a b, [a, b] <:+: text →
        ¬ (Operator.isBinaryChar a = true ∧ Operator.isBinaryChar b = true)) ∧
      (∀ before c after, text = before ++ '.' :: c :: after → c.isDigit = true →
        ∃ d ∈ before.getLast?, d.isDigit = true) ∧
      ∀ d c, [d, '.', c] <:+: text → d.isDigit = true → Operator.isBinaryChar c = false := by
  have hp : '^' ∉ text := fun h => absurd (hk _ h) (by decide)
  have h := typeText_eq_ofTyped_iff hk
  rw [ofTyped_of_ne_nil hne] at h
  rw [h, Faithful, placed_iff hp, forall_not_needsZero_iff, and_assoc]

end

/-- One character is dropped here and one is added, and the text is not typed as it stands. -/
theorem typeText_ne_self_of_dropped_and_added :
    ['+', '.', '.', '5'] ≠ [] ∧ (∀ c ∈ ['+', '.', '.', '5'], c ∈ typable) ∧
      (initial.typeText ['+', '.', '.', '5']).equation ≠ ['+', '.', '.', '5'] := by
  have hne : ['+', '.', '.', '5'] ≠ [] := by decide
  have hk : ∀ c ∈ ['+', '.', '.', '5'], c ∈ typable := by simp [typable]
  refine ⟨hne, hk, fun h => ?_⟩
  exact absurd (((typeText_eq_self_iff hne hk).mp h).1 '+' rfl) (by decide)

example : (initial.typeText ['+', '.', '.', '5']).equation = ['.', '0', '.', '5'] := by decide

end Line

end Calculator
