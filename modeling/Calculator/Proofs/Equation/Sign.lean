import Calculator.Proofs.Equation.Placement

/-!
# The sign turned twice

What the sign key does depends on how an equation ends, and what it leaves ends
in another way. So turning the sign twice need not give the equation back: a
digit that other characters precede is put into a second group, and of two
groups that have just been opened both are taken back.

* `Equation.ending`: the ends that the sign key tells apart;
* `Equation.toggleSign_group`, `Equation.toggleSign_operator`,
  `Equation.toggleSign_digit`, `Equation.toggleSign_other`: what it does at each;
* `Equation.toggleSign_ofTyped_eq_iff`: when it opens a negative group;
* `Equation.toggleSign_twice_group`, `Equation.toggleSign_twice_operator`,
  `Equation.toggleSign_twice_digit`, `Equation.toggleSign_twice_other`,
  `Equation.toggleSign_twice_iff`: the equations that come back.
-/

namespace Calculator

namespace Equation

/-- How an equation ends, as far as the sign key tells ends apart. -/
inductive Ending : List Char → Prop where
  | nothing : Ending []
  | blank : Ending blank
  /-- A negative group has just been opened. -/
  | group (before : List Char) : Ending (before ++ negativeGroup)
  | operator (before : List Char) {c : Char} (ho : Operator.isBinaryChar c = true)
      (hg : ¬ negativeGroup <:+ before ++ [c]) : Ending (before ++ [c])
  | digit (before : List Char) {c : Char} (hd : c.isDigit = true) : Ending (before ++ [c])
  | other (before : List Char) {c : Char} (ho : Operator.isBinaryChar c = false)
      (hd : c.isDigit = false) (hb : before ++ [c] ≠ Equation.blank) : Ending (before ++ [c])

/-- The last character joins two terms. -/
def EndsInOperator (equation : List Char) : Prop :=
  ∃ c ∈ equation.getLast?, Operator.isBinaryChar c = true

variable {before : List Char} {c d : Char}

theorem ending (equation : List Char) : Ending equation := by
  rcases List.eq_nil_or_concat' equation with rfl | ⟨before, c, rfl⟩
  · exact .nothing
  by_cases hb : before ++ [c] = blank
  · rw [hb]
    exact .blank
  by_cases hg : negativeGroup <:+ before ++ [c]
  · obtain ⟨start, hs⟩ := hg
    rw [← hs]
    exact .group start
  cases ho : Operator.isBinaryChar c with
  | true => exact .operator before ho hg
  | false =>
    cases hd : c.isDigit with
    | true => exact .digit before hd
    | false => exact .other before ho hd hb

/-! ## The last character -/

theorem endsInOperator_concat :
    EndsInOperator (before ++ [c]) ↔ Operator.isBinaryChar c = true := by
  rw [EndsInOperator, List.getLast?_concat]
  simp

theorem getLast?_group (before : List Char) : (before ++ negativeGroup).getLast? = some '-' := by
  rw [negativeGroup, List.getLast?_append_cons]
  rfl

theorem isDigit_ne (hc : c.isDigit = true) (hd : d.isDigit = false) : c ≠ d := by
  rintro rfl
  rw [hc] at hd
  cases hd

theorem not_suffix_concat (h : c ≠ '-') (before : List Char) :
    ¬ negativeGroup <:+ before ++ [c] := by
  rintro ⟨start, hs⟩
  have hl := congrArg List.getLast? hs
  rw [getLast?_group, List.getLast?_concat] at hl
  exact h (Option.some.inj hl).symm

/-! ## One turn -/

theorem toggleSign_group (before : List Char) :
    toggleSign (before ++ negativeGroup) = .ok (ofTyped before) := by
  have hc : before ++ negativeGroup = before ++ ['('] ++ ['-'] := by
    rw [List.append_assoc]
    rfl
  have hs : negativeGroup.isSuffixOf (before ++ negativeGroup) = true :=
    List.isSuffixOf_iff_suffix.mpr (List.suffix_append before negativeGroup)
  have hb := concat_ne_blank (c := '-') (by decide) (before ++ ['('])
  rw [hc] at hs ⊢
  simp only [toggleSign, if_neg hb, last_append, hs, List.dropLast_concat, if_true, bind,
    Except.bind, pure, Except.pure]

/-- Where no group has just been opened, the last character decides. -/
theorem toggleSign_concat (hb : before ++ [c] ≠ blank) (hg : ¬ negativeGroup <:+ before ++ [c]) :
    toggleSign (before ++ [c]) = .ok
      (if Operator.isBinaryChar c then before ++ [c] ++ negativeGroup
      else if c.isDigit then
        if before = negativeGroup then [c] else before ++ negativeGroup ++ [c]
      else before ++ [c]) := by
  rw [← List.isSuffixOf_iff_suffix] at hg
  simp only [toggleSign, if_neg hb, last_append, if_neg hg, List.dropLast_concat, bind,
    Except.bind, pure, Except.pure, List.append_cancel_right_eq]
  split_ifs <;> rfl

theorem toggleSign_operator (ho : Operator.isBinaryChar c = true)
    (hg : ¬ negativeGroup <:+ before ++ [c]) :
    toggleSign (before ++ [c]) = .ok (before ++ [c] ++ negativeGroup) := by
  have hs : c ≠ ' ' := by
    rintro rfl
    cases ho
  rw [toggleSign_concat (concat_ne_blank hs before) hg, if_pos ho]

theorem toggleSign_digit (before : List Char) (hd : c.isDigit = true) :
    toggleSign (before ++ [c]) = .ok
      (if before = negativeGroup then [c] else before ++ negativeGroup ++ [c]) := by
  have hb := concat_ne_blank (isDigit_ne hd rfl) before
  have hg := not_suffix_concat (isDigit_ne hd rfl) before
  rw [toggleSign_concat hb hg, (free_of_isDigit hd).1, hd]
  rfl

theorem toggleSign_other (ho : Operator.isBinaryChar c = false) (hd : c.isDigit = false)
    (hb : before ++ [c] ≠ blank) : toggleSign (before ++ [c]) = .ok (before ++ [c]) := by
  have hg : c ≠ '-' := by
    rintro rfl
    cases ho
  rw [toggleSign_concat hb (not_suffix_concat hg before), ho, hd]
  rfl

/-! ## Two turns -/

/-- A negative group is opened where nothing has been typed, and after an operator that does not
open a group itself. -/
theorem toggleSign_ofTyped_eq_iff (before : List Char) :
    toggleSign (ofTyped before) = .ok (before ++ negativeGroup) ↔
      before = [] ∨ EndsInOperator before ∧ ¬ negativeGroup <:+ before := by
  cases ending before with
  | nothing => exact iff_of_true rfl (.inl rfl)
  | blank => exact iff_of_false (by decide) (by simp [blank, EndsInOperator]; decide)
  | group start =>
    have hne : start ++ negativeGroup ≠ [] := List.append_ne_nil_of_right_ne_nil start (by decide)
    rw [ofTyped_of_ne_nil hne, toggleSign_group, Except.ok.injEq]
    refine iff_of_false (fun h => ?_) ?_
    · rcases eq_or_ne start [] with rfl | hs
      · exact absurd h (by decide)
      · rw [ofTyped_of_ne_nil hs, List.append_assoc, List.self_eq_append_right] at h
        exact absurd h (by decide)
    · rintro (h | ⟨-, h⟩)
      · exact hne h
      · exact h (List.suffix_append start negativeGroup)
  | @operator start c ho hg =>
    rw [ofTyped_of_ne_nil (List.concat_ne_nil c start), toggleSign_operator ho hg]
    exact iff_of_true rfl (.inr ⟨endsInOperator_concat.mpr ho, hg⟩)
  | @digit start c hd =>
    rw [ofTyped_of_ne_nil (List.concat_ne_nil c start), toggleSign_digit start hd, Except.ok.injEq,
      endsInOperator_concat, (free_of_isDigit hd).1]
    refine iff_of_false (fun h => ?_) (by simp)
    have hl := congrArg List.getLast? h
    rw [getLast?_group, apply_ite List.getLast?, List.getLast?_concat, List.getLast?_singleton,
      ite_self] at hl
    exact isDigit_ne hd rfl (Option.some.inj hl)
  | @other start c ho hd hb =>
    rw [ofTyped_of_ne_nil (List.concat_ne_nil c start), toggleSign_other ho hd hb,
      Except.ok.injEq, endsInOperator_concat, ho]
    exact iff_of_false (by simp [negativeGroup]) (by simp)

/-- The group is taken back, and has to be opened again. -/
theorem toggleSign_twice_group (before : List Char) :
    (toggleSign (before ++ negativeGroup) >>= toggleSign) = .ok (before ++ negativeGroup) ↔
      before = [] ∨ EndsInOperator before ∧ ¬ negativeGroup <:+ before := by
  rw [toggleSign_group, ← toggleSign_ofTyped_eq_iff]
  rfl

/-- The group that is opened is taken back. -/
theorem toggleSign_twice_operator (ho : Operator.isBinaryChar c = true)
    (hg : ¬ negativeGroup <:+ before ++ [c]) :
    (toggleSign (before ++ [c]) >>= toggleSign) = .ok (before ++ [c]) := by
  rw [toggleSign_operator ho hg]
  exact (toggleSign_group _).trans (by rw [ofTyped_of_ne_nil (List.concat_ne_nil c before)])

/-- A digit is taken out of a group that it fills, and else put into one, each time. -/
theorem toggleSign_twice_digit (before : List Char) (hd : c.isDigit = true) :
    (toggleSign (before ++ [c]) >>= toggleSign) = .ok (before ++ [c]) ↔
      before = [] ∨ before = negativeGroup := by
  rw [toggleSign_digit before hd]
  show toggleSign _ = _ ↔ _
  split_ifs with hg
  · subst hg
    exact iff_of_true (toggleSign_digit [] hd) (.inr rfl)
  · rw [toggleSign_digit _ hd, or_iff_left hg, Except.ok.injEq]
    split_ifs with hb
    · obtain rfl := List.append_left_eq_self.mp hb
      exact iff_of_true rfl rfl
    · refine iff_of_false (fun h => ?_) ?_
      · rw [List.append_cancel_right_eq, List.append_assoc, List.append_right_eq_self] at h
        exact absurd h (by decide)
      · rintro rfl
        exact hb rfl

theorem toggleSign_twice_other (ho : Operator.isBinaryChar c = false) (hd : c.isDigit = false)
    (hb : before ++ [c] ≠ blank) :
    (toggleSign (before ++ [c]) >>= toggleSign) = .ok (before ++ [c]) := by
  rw [toggleSign_other ho hd hb]
  exact toggleSign_other ho hd hb

/-- Turning the sign twice gives an equation back exactly if nothing has been typed, if a negative
group has just been opened at the beginning or after an operator that opens no group itself, if it
ends in such an operator, if it is a digit, alone or in a negative group, or if it ends neither in a
digit nor in an operator. -/
theorem toggleSign_twice_iff (equation : List Char) :
    (toggleSign equation >>= toggleSign) = .ok equation ↔
      equation = blank ∨
      (∃ before, equation = before ++ negativeGroup ∧
        (before = [] ∨ EndsInOperator before ∧ ¬ negativeGroup <:+ before)) ∨
      EndsInOperator equation ∧ ¬ negativeGroup <:+ equation ∨
      (∃ d, d.isDigit = true ∧ (equation = [d] ∨ equation = negativeGroup ++ [d])) ∨
      ∃ c ∈ equation.getLast?, Operator.isBinaryChar c = false ∧ c.isDigit = false := by
  cases ending equation with
  | nothing => exact iff_of_false nofun (by simp [blank, negativeGroup, EndsInOperator])
  | blank => exact iff_of_true rfl (.inl rfl)
  | group before =>
    have hlast := getLast?_group before
    rw [toggleSign_twice_group]
    refine ⟨fun h => .inr (.inl ⟨before, rfl, h⟩), ?_⟩
    rintro (h | ⟨start, h, hs⟩ | ⟨-, h⟩ | ⟨d, hd, h | h⟩ | ⟨c, hc, ho, -⟩)
    · rw [h] at hlast
      exact absurd hlast (by decide)
    · rwa [List.append_cancel_right h]
    · exact absurd (List.suffix_append before negativeGroup) h
    · rw [h, List.getLast?_singleton] at hlast
      exact absurd (Option.some.inj hlast) (isDigit_ne hd rfl)
    · rw [h, List.getLast?_concat] at hlast
      exact absurd (Option.some.inj hlast) (isDigit_ne hd rfl)
    · rw [hlast] at hc
      obtain rfl : '-' = c := Option.some.inj hc
      cases ho
  | @operator before c ho hg =>
    exact iff_of_true (toggleSign_twice_operator ho hg)
      (.inr (.inr (.inl ⟨endsInOperator_concat.mpr ho, hg⟩)))
  | @digit before c hd =>
    rw [toggleSign_twice_digit before hd]
    constructor
    · rintro (rfl | rfl)
      · exact .inr (.inr (.inr (.inl ⟨c, hd, .inl rfl⟩)))
      · exact .inr (.inr (.inr (.inl ⟨c, hd, .inr rfl⟩)))
    · rintro (h | ⟨start, h, -⟩ | ⟨ho, -⟩ | ⟨d, -, h | h⟩ | ⟨d, hm, -, hn⟩)
      · exact absurd h (concat_ne_blank (isDigit_ne hd rfl) before)
      · exact absurd ⟨start, h.symm⟩ (not_suffix_concat (isDigit_ne hd rfl) before)
      · rw [endsInOperator_concat, (free_of_isDigit hd).1] at ho
        cases ho
      · exact .inl (List.append_inj' (h.trans (List.nil_append [d]).symm) rfl).1
      · exact .inr (List.append_inj' h rfl).1
      · rw [List.getLast?_concat] at hm
        exact absurd (Option.some.inj hm) (isDigit_ne hd hn)
  | @other before c ho hd hb =>
    exact iff_of_true (toggleSign_twice_other ho hd hb)
      (.inr (.inr (.inr (.inr ⟨c, List.getLast?_concat, ho, hd⟩))))

end Equation

end Calculator
