import Calculator.Line
import Mathlib.Data.List.DropRight

/-!
# What the rules of typing look at

A rule of typing sees the last two characters of an equation, and whether as many parentheses open
as close; nothing else decides what it does, as soon as more than three characters stand there. So
a key makes the same edit of all equations that look the same to it: it takes away the same count
of characters from the end, two at most, and adds the same text.

* `Equation.Seen`: what a rule sees of an equation;
* `Equation.EditsAlike`: a rule that makes one edit of all equations of which it sees the same;
* `Line.exists_edit`: every key that edits does;
* `Line.edit_local`: two equations that look the same are edited alike.
-/

namespace Calculator

namespace Equation

variable {a b : Char} {balanced : Prop} {equation token : List Char}

/-- What a rule of typing sees of an equation with more than three characters: the last two of them,
and whether its parentheses agree in number. -/
structure Seen (a b : Char) (balanced : Prop) (equation : List Char) : Prop where
  ends : ∃ kept, 2 ≤ kept.length ∧ equation = kept ++ [a, b]
  counts : equation.count '(' = equation.count ')' ↔ balanced

/-- The rule takes away the same count of characters from all equations of which it sees this, and
adds the same text. -/
def EditsAlike (a b : Char) (balanced : Prop) (rule : List Char → Except EditError (List Char)) :
    Prop :=
  ∃ n ≤ 2, ∃ added, ∀ equation, Seen a b balanced equation →
    rule equation = .ok (equation.rdrop n ++ added)

/-! ## What is seen -/

theorem exists_seen (h : 4 ≤ equation.length) : ∃ a b, equation.rtake 2 = [a, b] ∧
    Seen a b (equation.count '(' = equation.count ')') equation := by
  have hlen : (equation.rtake 2).length = 2 := by
    rw [List.rtake, List.length_drop]
    omega
  obtain ⟨a, b, hab⟩ := List.length_eq_two.mp hlen
  refine ⟨a, b, hab, ⟨equation.rdrop 2, ?_, ?_⟩, Iff.rfl⟩
  · rw [List.rdrop, List.length_take]
    omega
  · rw [← hab, List.rdrop, List.rtake, List.take_append_drop]

theorem rdrop_one (equation : List Char) : equation.rdrop 1 = equation.dropLast :=
  List.dropLast_eq_take.symm

theorem rdrop_two (equation : List Char) : equation.rdrop 2 = equation.dropLast.dropLast := by
  rw [List.dropLast_eq_take, List.dropLast_eq_take, List.take_take, List.length_take, List.rdrop]
  congr 1
  omega

namespace Seen

theorem ne_nil (h : Seen a b balanced equation) : equation ≠ [] := by
  obtain ⟨⟨kept, -, rfl⟩, -⟩ := h
  simp

theorem ne_blank (h : Seen a b balanced equation) : equation ≠ blank := by
  obtain ⟨⟨kept, hk, rfl⟩, -⟩ := h
  intro he
  have hlen := congrArg List.length he
  rw [List.length_append] at hlen
  simp [blank] at hlen

theorem getLast? (h : Seen a b balanced equation) : equation.getLast? = some b := by
  obtain ⟨⟨kept, -, rfl⟩, -⟩ := h
  simp

theorem beforeLast? (h : Seen a b balanced equation) : beforeLast? equation = some a := by
  obtain ⟨⟨kept, -, rfl⟩, -⟩ := h
  simp [Equation.beforeLast?, List.dropLast_append_of_ne_nil]

theorem last (h : Seen a b balanced equation) : last equation = .ok b := by
  rw [Equation.last, h.getLast?]

theorem typed (h : Seen a b balanced equation) : typed equation = equation := if_neg h.ne_blank

theorem ofTyped (h : Seen a b balanced equation) : ofTyped equation = equation :=
  ofTyped_of_ne_nil h.ne_nil

/-- Something is left when both characters are taken away. -/
theorem ofTyped_rdrop (h : Seen a b balanced equation) {n : Nat} (hn : n ≤ 2) :
    Equation.ofTyped (equation.rdrop n) = equation.rdrop n := by
  obtain ⟨⟨kept, hk, rfl⟩, -⟩ := h
  refine ofTyped_of_ne_nil (List.ne_nil_of_length_pos ?_)
  rw [List.rdrop, List.length_take, List.length_append, List.length_cons, List.length_singleton]
  omega

theorem isSuffixOf_iff (h : Seen a b balanced equation) :
    negativeGroup.isSuffixOf equation = true ↔ [a, b] = negativeGroup := by
  obtain ⟨⟨kept, -, rfl⟩, -⟩ := h
  rw [List.isSuffixOf_iff_suffix]
  constructor
  · rintro ⟨before, he⟩
    exact (List.append_inj' he rfl).2.symm
  · rintro he
    exact ⟨kept, by rw [he]⟩

theorem ne_negativeGroup (h : Seen a b balanced equation) (c : Char) :
    equation ≠ negativeGroup ++ [c] := by
  obtain ⟨⟨kept, hk, rfl⟩, -⟩ := h
  intro he
  have hlen := congrArg List.length he
  rw [List.length_append] at hlen
  simp [negativeGroup] at hlen
  omega

end Seen

/-! ## The rules -/

theorem EditsAlike.of_appends {rule : List Char → Except EditError (List Char)} (added : List Char)
    (h : ∀ equation, Seen a b balanced equation → rule equation = .ok (equation ++ added)) :
    EditsAlike a b balanced rule :=
  ⟨0, Nat.zero_le 2, added, fun equation hs => by rw [h equation hs, List.rdrop_zero]⟩

theorem EditsAlike.of_keeps {rule : List Char → Except EditError (List Char)}
    (h : ∀ equation, Seen a b balanced equation → rule equation = .ok equation) :
    EditsAlike a b balanced rule :=
  .of_appends [] fun equation hs => by rw [h equation hs, List.append_nil]

theorem editsAlike_deleteLast :
    EditsAlike a b balanced fun equation => .ok (deleteLast equation) := by
  refine ⟨1, by decide, [], fun equation h => congrArg Except.ok ?_⟩
  rw [deleteLast, if_neg h.ne_blank, ← rdrop_one, h.ofTyped_rdrop (by decide), List.append_nil]

theorem editsAlike_openRoot : EditsAlike a b balanced fun equation => .ok (openRoot equation) :=
  .of_appends _ fun equation h => by rw [openRoot, h.typed, List.append_assoc]

theorem Seen.opens_iff (h : Seen a b balanced equation) :
    (equation.count '(' == equation.count ')' ||
      equation.getLast?.any fun c => c == '(' || Operator.isBinaryChar c) = true ↔
        balanced ∨ (b == '(' || Operator.isBinaryChar b) = true := by
  rw [h.getLast?, Bool.or_eq_true, beq_iff_eq, h.counts, Option.any_some]

theorem editsAlike_openOrClose :
    EditsAlike a b balanced fun equation => .ok (openOrClose equation) := by
  by_cases ho : balanced ∨ (b == '(' || Operator.isBinaryChar b) = true
  · refine .of_appends ['('] fun equation h => congrArg Except.ok ?_
    simp only [openOrClose, h.typed]
    rw [if_pos (h.opens_iff.mpr ho)]
  · refine .of_appends [')'] fun equation h => congrArg Except.ok ?_
    simp only [openOrClose, h.typed]
    rw [if_neg (h.opens_iff.not.mpr ho)]

theorem editsAlike_raise (exponent : List Char) :
    EditsAlike a b balanced fun equation => Equation.raise equation exponent := by
  cases hp : takesPower b with
  | true =>
    refine .of_appends ('^' :: exponent) fun equation h => ?_
    rw [Equation.raise, h.last]
    exact if_pos hp
  | false =>
    refine .of_keeps fun equation h => ?_
    rw [Equation.raise, h.last]
    exact if_neg (by rw [hp]; decide)

theorem Seen.toggleSign (h : Seen a b balanced equation) :
    toggleSign equation = .ok
      (if [a, b] = negativeGroup then equation.rdrop 2
      else if Operator.isBinaryChar b then equation ++ negativeGroup
      else if b.isDigit then equation.rdrop 1 ++ (negativeGroup ++ [b])
      else equation) := by
  rw [Equation.toggleSign, if_neg h.ne_blank, h.last, ← rdrop_two,
    h.ofTyped_rdrop (Nat.le_refl 2), ← rdrop_one]
  simp only [bind, Except.bind, pure, Except.pure, h.isSuffixOf_iff, if_neg (h.ne_negativeGroup b),
    List.append_assoc]
  split_ifs <;> rfl

theorem editsAlike_toggleSign : EditsAlike a b balanced Equation.toggleSign := by
  by_cases hg : [a, b] = negativeGroup
  · refine ⟨2, Nat.le_refl 2, [], fun equation h => ?_⟩
    rw [h.toggleSign, if_pos hg, List.append_nil]
  cases ho : Operator.isBinaryChar b with
  | true => exact .of_appends _ fun equation h => by rw [h.toggleSign, if_neg hg, if_pos ho]
  | false =>
    cases hd : b.isDigit with
    | true =>
      refine ⟨1, by decide, negativeGroup ++ [b], fun equation h => ?_⟩
      rw [h.toggleSign, if_neg hg, ho, if_neg Bool.false_ne_true, if_pos hd]
    | false =>
      refine .of_keeps fun equation h => ?_
      rw [h.toggleSign, if_neg hg, ho, if_neg Bool.false_ne_true, hd, if_neg Bool.false_ne_true]

/-- What completes a number is the same for all equations that are seen alike. -/
theorem completeNumber_cases (a b : Char) (balanced : Prop) (token : List Char) :
    (∃ n ≤ 2, ∃ added, ∀ equation, Seen a b balanced equation →
      completeNumber equation token = some (equation.rdrop n ++ added)) ∨
    ∀ equation, Seen a b balanced equation → completeNumber equation token = none := by
  have hc (equation : List Char) (h : Seen a b balanced equation) : completeNumber equation token =
      if b = '.' then
        if a.isDigit then
          if Operator.isBinary token then some (equation.rdrop 0 ++ '0' :: token)
          else if isDigitText token then some (equation.rdrop 0 ++ token)
          else none
        else if isDigitText token then some (equation.rdrop 1 ++ '0' :: '.' :: token)
        else none
      else none := by
    rw [completeNumber, h.getLast?, h.beforeLast?, rdrop_one, List.rdrop_zero]
    simp only [Option.some.injEq, Option.any_some]
  split_ifs at hc
  · exact .inl ⟨0, Nat.zero_le 2, '0' :: token, hc⟩
  · exact .inl ⟨0, Nat.zero_le 2, token, hc⟩
  · exact .inr hc
  · exact .inl ⟨1, by decide, '0' :: '.' :: token, hc⟩
  · exact .inr hc
  · exact .inr hc

theorem Seen.swapOperator (h : Seen a b balanced equation) (token : List Char) :
    swapOperator equation token = .ok
      (if Operator.isBinaryChar b && Operator.isBinary token then some (equation.rdrop 1 ++ token)
      else none) := by
  rw [Equation.swapOperator, h.last, rdrop_one]
  simp only [bind, Except.bind, pure, Except.pure]
  split <;> rfl

theorem editsAlike_typeToken (token : List Char) :
    EditsAlike a b balanced fun equation => typeToken equation token := by
  rcases completeNumber_cases a b balanced token with ⟨n, hn, added, hc⟩ | hc
  · refine ⟨n, hn, added, fun equation h => ?_⟩
    show typeToken equation token = _
    rw [typeToken, if_neg h.ne_blank, hc equation h]
  by_cases hs : (Operator.isBinaryChar b && Operator.isBinary token) = true
  · refine ⟨1, by decide, token, fun equation h => ?_⟩
    show typeToken equation token = _
    rw [typeToken, if_neg h.ne_blank, hc equation h, h.swapOperator, if_pos hs]
    rfl
  · refine .of_appends token fun equation h => ?_
    show typeToken equation token = _
    rw [typeToken, if_neg h.ne_blank, hc equation h, h.swapOperator, if_neg hs]
    rfl

end Equation

namespace Line

open Equation

section

variable [Host] {a b : Char} {balanced : Prop} {error : Bool} {key : Key}
  {rule : List Char → Except EditError (List Char)}

/-- A key that applies a rule edits what the rule edits alike, and marks it alike. -/
theorem exists_edit_of_rule (h : EditsAlike a b balanced rule) {marked : Bool}
    (hr : ∀ equation, editTyped ⟨equation, error⟩ key = do return ⟨← rule equation, marked⟩) :
    ∃ n ≤ 2, ∃ added marked, ∀ equation, Seen a b balanced equation →
      edit ⟨equation, error⟩ key = ⟨equation.rdrop n ++ added, marked⟩ := by
  obtain ⟨n, hn, added, h⟩ := h
  refine ⟨n, hn, added, marked, fun equation hs => ?_⟩
  have he := edit?_eq_ok ⟨equation, error⟩ key
  rw [edit?, hs.ofTyped, hr, h equation hs] at he
  exact (Except.ok.inj he).symm

/-- Every key that neither clears nor evaluates makes one edit of all equations of which it sees the
same. -/
theorem exists_edit (hk : key ∉ [.clear, .clearEntry, .equals]) (a b : Char) (balanced : Prop)
    (error : Bool) :
    ∃ n ≤ 2, ∃ added marked, ∀ equation, Seen a b balanced equation →
      edit ⟨equation, error⟩ key = ⟨equation.rdrop n ++ added, marked⟩ := by
  have htyped := @exists_edit_of_rule _ a b balanced error key _ (editsAlike_typeToken key.token)
    (error && !clearsError key)
  cases key with
  | clear | clearEntry | equals => exact absurd (by decide) hk
  | delete => exact exists_edit_of_rule editsAlike_deleteLast fun _ => rfl
  | plusMinus => exact exists_edit_of_rule editsAlike_toggleSign fun _ => rfl
  | powerTwo | powerY => exact exists_edit_of_rule (editsAlike_raise _) fun _ => rfl
  | squareRoot => exact exists_edit_of_rule editsAlike_openRoot fun _ => rfl
  | parentheses => exact exists_edit_of_rule editsAlike_openOrClose fun _ => rfl
  | _ => exact htyped fun _ => rfl

/-- Two equations with more than three characters that end with the same two, and of which both or
neither have as many parentheses that open as close, are edited alike by every key that neither
clears nor evaluates: the same count of characters is taken away from their ends, two at most, the
same text is added, and both are marked or neither is. -/
theorem edit_local {first second : List Char} {key : Option Key} (hf : 4 ≤ first.length)
    (hs : 4 ≤ second.length) (hl : first.rtake 2 = second.rtake 2)
    (hb : first.count '(' = first.count ')' ↔ second.count '(' = second.count ')')
    (hk : key ∉ [some .clear, some .clearEntry, some .equals]) (error : Bool) :
    ∃ n ≤ 2, ∃ added marked,
      apply ⟨first, error⟩ key = ⟨first.rdrop n ++ added, marked⟩ ∧
        apply ⟨second, error⟩ key = ⟨second.rdrop n ++ added, marked⟩ := by
  cases key with
  | none => exact ⟨0, Nat.zero_le 2, [], error, by simp [apply], by simp [apply]⟩
  | some key =>
    obtain ⟨a, b, hab, hseen⟩ := exists_seen hf
    obtain ⟨c, d, hcd, hseen'⟩ := exists_seen hs
    obtain ⟨rfl, rfl⟩ : a = c ∧ b = d := by simpa using hab.symm.trans (hl.trans hcd)
    obtain ⟨n, hn, added, marked, h⟩ := exists_edit (by simpa using hk) a b
      (first.count '(' = first.count ')') error
    exact ⟨n, hn, added, marked, h first hseen, h second ⟨hseen'.ends, hb.symm⟩⟩

end

/-- What opens a negative group is taken back alike, whatever stands before it. -/
theorem edit_local_of_negative_group :
    ∃ n ≤ 2, ∃ added marked,
      apply ⟨['5', '*', '(', '-'], true⟩ (some .plusMinus) =
          ⟨['5', '*', '(', '-'].rdrop n ++ added, marked⟩ ∧
        apply ⟨['(', '2', ')', '+', '9', '(', '-'], true⟩ (some .plusMinus) =
          ⟨['(', '2', ')', '+', '9', '(', '-'].rdrop n ++ added, marked⟩ :=
  edit_local (by decide) (by decide) (by decide) (by decide) (by decide) true

end Line

end Calculator
