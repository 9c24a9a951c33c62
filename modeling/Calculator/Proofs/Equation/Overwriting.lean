import Calculator.Proofs.Equation.Placement

/-!
# Operators in a row

Of several operators that are typed one after another only the last one is
left. The first completes a number that ends in its point, takes the place of
an operator, or is refused where nothing has been typed; what it is added to
does not depend on which operator it is, and every other one takes its place.

* `Equation.typeToken_operator`: what an operator is added to;
* `Equation.beforeOperator_concat`: another one is added to the same;
* `Line.edit_edit_operator`, `Line.last_operator_counts`: two operators, and
  any number of them.
-/

namespace Calculator

namespace Equation

/-- What an operator is added to: a number that ends in its point is completed, and an operator is
taken away. -/
def beforeOperator (equation : List Char) : List Char :=
  if equation.getLast? = some '.' ∧ (beforeLast? equation).any Char.isDigit = true then
    equation ++ ['0']
  else if equation.getLast?.any Operator.isBinaryChar then equation.dropLast
  else equation

variable {equation before : List Char} {c : Char}

theorem not_digit_of_operator (ho : Operator.isBinaryChar c = true) : c.isDigit = false := by
  rw [Bool.eq_false_iff]
  intro hd
  rw [(free_of_isDigit hd).1] at ho
  cases ho

theorem beforeOperator_concat (ho : Operator.isBinaryChar c = true) (before : List Char) :
    beforeOperator (before ++ [c]) = before := by
  have hc : c ≠ '.' := by
    rintro rfl
    cases ho
  simp [beforeOperator, hc, ho]

/-- An operator completes a number that ends in its point, and nothing else. -/
theorem completeNumber_operator (ho : Operator.isBinaryChar c = true) (equation : List Char) :
    completeNumber equation [c] =
      if equation.getLast? = some '.' ∧ (beforeLast? equation).any Char.isDigit = true then
        some (equation ++ ['0'] ++ [c])
      else none := by
  have hd : isDigitText [c] = false := not_digit_of_operator ho
  rw [completeNumber, Operator.isBinary_singleton, ho, hd]
  split_ifs <;> simp_all

theorem swapOperator_operator (ho : Operator.isBinaryChar c = true) (hne : equation ≠ []) :
    swapOperator equation [c] = .ok
      (if equation.getLast?.any Operator.isBinaryChar then some (equation.dropLast ++ [c])
      else none) := by
  obtain ⟨before, a, rfl⟩ := (List.eq_nil_or_concat' equation).resolve_left hne
  rw [swapOperator, last_append, Operator.isBinary_singleton, ho, List.getLast?_concat]
  simp only [bind, Except.bind, pure, Except.pure, Bool.and_true, Option.any_some]
  split_ifs <;> rfl

theorem typeToken_operator (ho : Operator.isBinaryChar c = true) (hne : equation ≠ [])
    (hb : equation ≠ blank) :
    typeToken equation [c] = .ok (beforeOperator equation ++ [c]) := by
  rw [typeToken, if_neg hb, completeNumber_operator ho, swapOperator_operator ho hne,
    beforeOperator]
  split_ifs <;> rfl

end Equation

namespace Line

open Equation

section

variable {key other : Key}

theorem eq_of_isBinary (h : Operator.isBinary key.token = true) :
    key = .multiply ∨ key = .divide ∨ key = .add ∨ key = .subtract := by
  revert h
  cases key <;> decide

theorem exists_token_of_isBinary (h : Operator.isBinary key.token = true) :
    ∃ c, key.token = [c] ∧ Operator.isBinaryChar c = true := by
  rcases eq_of_isBinary h with rfl | rfl | rfl | rfl <;> exact ⟨_, rfl, rfl⟩

variable [Host]

theorem editTyped_operator (line : Line) (h : Operator.isBinary key.token = true) :
    editTyped line key = do return ⟨← typeToken line.equation key.token, line.error⟩ := by
  have hk : editTyped line key = do
      return ⟨← typeToken line.equation key.token, line.error && !clearsError key⟩ := by
    rcases eq_of_isBinary h with rfl | rfl | rfl | rfl <;> rfl
  have hc : clearsError key = false := by
    rcases eq_of_isBinary h with rfl | rfl | rfl | rfl <;> rfl
  rwa [hc, Bool.not_false, Bool.and_true] at hk

/-- An operator key is refused where nothing has been typed, and keeps the mark of the line. -/
theorem edit_operator (line : Line) (h : Operator.isBinary key.token = true) :
    line.edit key =
      ⟨if ofTyped line.equation = blank then blank
        else beforeOperator (ofTyped line.equation) ++ key.token, line.error⟩ := by
  obtain ⟨c, hc, ho⟩ := exists_token_of_isBinary h
  have he := edit?_eq_ok line key
  rw [edit?, editTyped_operator _ h, hc] at he
  dsimp only at he
  rw [hc]
  split_ifs with hb
  · rw [hb, typeToken, if_pos rfl, Operator.isBinary_singleton, ho] at he
    exact (Except.ok.inj he).symm
  · rw [typeToken_operator ho (ofTyped_ne_nil _) hb] at he
    exact (Except.ok.inj he).symm

theorem edit_edit_operator (line : Line) (h : Operator.isBinary key.token = true)
    (ho : Operator.isBinary other.token = true) : (line.edit other).edit key = line.edit key := by
  obtain ⟨c, hc, hb⟩ := exists_token_of_isBinary ho
  have hs : c ≠ ' ' := by
    rintro rfl
    cases hb
  rw [edit_operator _ h, edit_operator line ho, edit_operator line h, hc]
  by_cases he : ofTyped line.equation = blank
  · rw [if_pos he, if_pos he]
    rfl
  · rw [if_neg he]
    dsimp only
    rw [ofTyped_of_ne_nil (List.concat_ne_nil c _), beforeOperator_concat hb,
      if_neg (concat_ne_blank hs _), if_neg he]

/-- Of operator keys pressed one after another only the last one counts, whatever the line was. -/
theorem last_operator_counts (line : Line) {keys : List Key} {key : Key}
    (h : ∀ k ∈ keys ++ [key], Operator.isBinary k.token = true) :
    ((keys ++ [key]).map some).foldl apply line = line.apply (some key) := by
  have hkey : Operator.isBinary key.token = true := h key (List.mem_append_right _ (by simp))
  induction keys generalizing line with
  | nil => rfl
  | cons other keys ih =>
    obtain ⟨hother, hkeys⟩ := List.forall_mem_cons.mp h
    exact (ih (line.edit other) hkeys).trans (edit_edit_operator line hkey hother)

end

/-- The first operator completes the number, and the last one is left after it. -/
theorem last_operator_counts_after_point :
    (∀ k ∈ [Key.multiply, Key.divide] ++ [Key.subtract], Operator.isBinary k.token = true) ∧
      (([Key.multiply, Key.divide] ++ [Key.subtract]).map some).foldl apply
        ⟨['(', '3', '.'], true⟩ = ⟨['(', '3', '.', '0', '-'], true⟩ := by
  have h : ∀ k ∈ [Key.multiply, Key.divide] ++ [Key.subtract],
      Operator.isBinary k.token = true := by decide
  have he : apply ⟨['(', '3', '.'], true⟩ (some .subtract) = ⟨['(', '3', '.', '0', '-'], true⟩ := by
    decide
  exact ⟨h, (last_operator_counts ⟨['(', '3', '.'], true⟩ h).trans he⟩

end Line

end Calculator
