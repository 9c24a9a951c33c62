import Calculator.Operator

/-!
# The rules of typing

Each rule says how one kind of key changes an equation. The equation is a text of symbols; a single
space, `blank`, means that nothing has been typed. A rule looks at the last characters alone, and
at the counts of parentheses, so an equation that is typed may still be malformed. A rule that
needs a last character refuses the text that has none.

* `Equation.isOk_toggleSign` and its like: a rule refuses only the empty text;
* `Equation.toggleSign_ne_nil` and its like: what a rule leaves is not empty.
-/

namespace Calculator

/-- Why a rule cannot be applied. -/
inductive EditError where
  /-- The text has no last character. -/
  | noLastCharacter
  deriving DecidableEq

namespace Equation

/-- The equation in which nothing has been typed. -/
def blank : List Char := [' ']

/-- The characters that have been typed. -/
def typed (equation : List Char) : List Char := if equation = blank then [] else equation

/-- The equation in which these characters have been typed. -/
def ofTyped (text : List Char) : List Char := if text = [] then blank else text

/-- The last character. -/
def last (equation : List Char) : Except EditError Char :=
  match equation.getLast? with
  | some c => .ok c
  | none => .error .noLastCharacter

/-- The character before the last one. -/
def beforeLast? (equation : List Char) : Option Char := equation.dropLast.getLast?

/-- The text is a single digit. -/
def isDigitText (text : List Char) : Bool :=
  match text with
  | [c] => c.isDigit
  | _ => false

/-- What opens a negative group. -/
def negativeGroup : List Char := ['(', '-']

/-- Removes the last character. -/
def deleteLast (equation : List Char) : List Char :=
  if equation = blank then equation else ofTyped equation.dropLast

/-- Opens a negative group, around the last digit if there is one, or takes back the group that has
just been opened. A negative digit alone becomes positive. -/
def toggleSign (equation : List Char) : Except EditError (List Char) :=
  if equation = blank then .ok negativeGroup
  else do
    let c ← last equation
    if negativeGroup.isSuffixOf equation then return ofTyped equation.dropLast.dropLast
    else if Operator.isBinaryChar c then return equation ++ negativeGroup
    else if c.isDigit then
      if equation = negativeGroup ++ [c] then return [c]
      else return equation.dropLast ++ negativeGroup ++ [c]
    else return equation

/-- A power may follow the character. -/
def takesPower (c : Char) : Bool := c.isDigit || c == ')'

/-- Adds a power with the given exponent after a digit or a closing parenthesis. -/
def raise (equation exponent : List Char) : Except EditError (List Char) := do
  let c ← last equation
  if takesPower c then return equation ++ '^' :: exponent else return equation

/-- Opens the argument of a square root. -/
def openRoot (equation : List Char) : List Char :=
  typed equation ++ Operator.squareRoot.symbol ++ ['(']

/-- Opens a group if all are closed or none can be closed yet, else closes one. -/
def openOrClose (equation : List Char) : List Char :=
  let text := typed equation
  let opens := text.count '(' == text.count ')' ||
    text.getLast?.any fun c => c == '(' || Operator.isBinaryChar c
  text ++ [if opens then '(' else ')']

/-- Completes a number that ends in a point: with a zero after it for an operator, with a zero
before it for a digit after a lone point. In any other case the rule does not apply. -/
def completeNumber (equation token : List Char) : Option (List Char) :=
  if equation.getLast? = some '.' then
    if (beforeLast? equation).any Char.isDigit then
      if Operator.isBinary token then some (equation ++ '0' :: token)
      else if isDigitText token then some (equation ++ token)
      else none
    else if isDigitText token then some (equation.dropLast ++ '0' :: '.' :: token)
    else none
  else none

/-- Replaces the last operator by another one. In any other case the rule does not apply. -/
def swapOperator (equation token : List Char) : Except EditError (Option (List Char)) := do
  let c ← last equation
  if Operator.isBinaryChar c && Operator.isBinary token then
    return some (equation.dropLast ++ token)
  else return none

/-- Adds a token: the first of the rules for numbers and for operators that applies, else at the
end. An equation does not start with an operator. -/
def typeToken (equation token : List Char) : Except EditError (List Char) :=
  if equation = blank then .ok (if Operator.isBinary token then equation else token)
  else
    match completeNumber equation token with
    | some completed => .ok completed
    | none => do
      match ← swapOperator equation token with
      | some replaced => return replaced
      | none => return equation ++ token

theorem ofTyped_ne_nil (text : List Char) : ofTyped text ≠ [] := by
  unfold ofTyped
  split
  · exact List.cons_ne_nil _ _
  · assumption

theorem ofTyped_of_ne_nil {text : List Char} (h : text ≠ []) : ofTyped text = text := if_neg h

theorem last_append (text : List Char) (c : Char) : last (text ++ [c]) = .ok c := by
  simp [last]

theorem last_of_ne_nil {equation : List Char} (h : equation ≠ []) :
    last equation = .ok (equation.getLast h) := by
  simp [last, List.getLast?_eq_some_getLast h]

theorem isOk_toggleSign {equation : List Char} (h : equation ≠ []) :
    ∃ edited, toggleSign equation = .ok edited := by
  unfold toggleSign
  rw [last_of_ne_nil h]
  simp only [bind, Except.bind, pure, Except.pure]
  repeat' split
  all_goals exact ⟨_, rfl⟩

theorem isOk_raise {equation : List Char} (h : equation ≠ []) (exponent : List Char) :
    ∃ edited, raise equation exponent = .ok edited := by
  unfold raise
  rw [last_of_ne_nil h]
  simp only [bind, Except.bind, pure, Except.pure]
  split <;> exact ⟨_, rfl⟩

theorem isOk_swapOperator {equation : List Char} (h : equation ≠ []) (token : List Char) :
    ∃ edited, swapOperator equation token = .ok edited := by
  unfold swapOperator
  rw [last_of_ne_nil h]
  simp only [bind, Except.bind, pure, Except.pure]
  split <;> exact ⟨_, rfl⟩

theorem isOk_typeToken {equation : List Char} (h : equation ≠ []) (token : List Char) :
    ∃ edited, typeToken equation token = .ok edited := by
  unfold typeToken
  obtain ⟨replaced, hr⟩ := isOk_swapOperator h token
  rw [hr]
  simp only [bind, Except.bind, pure, Except.pure]
  repeat' split
  all_goals exact ⟨_, rfl⟩

theorem deleteLast_ne_nil {equation : List Char} (h : equation ≠ []) :
    deleteLast equation ≠ [] := by
  unfold deleteLast
  split
  · exact h
  · exact ofTyped_ne_nil _

theorem toggleSign_ne_nil {equation edited : List Char} (h : equation ≠ [])
    (he : toggleSign equation = .ok edited) : edited ≠ [] := by
  unfold toggleSign at he
  rw [last_of_ne_nil h] at he
  simp only [bind, Except.bind, pure, Except.pure] at he
  repeat' split at he
  all_goals cases he
  · exact List.cons_ne_nil _ _
  · exact ofTyped_ne_nil _
  · simp [h]
  · exact List.cons_ne_nil _ _
  · simp
  · exact h

theorem raise_ne_nil {equation exponent edited : List Char} (h : equation ≠ [])
    (he : raise equation exponent = .ok edited) : edited ≠ [] := by
  unfold raise at he
  rw [last_of_ne_nil h] at he
  simp only [bind, Except.bind, pure, Except.pure] at he
  split at he <;> cases he
  · simp
  · exact h

theorem openRoot_ne_nil (equation : List Char) : openRoot equation ≠ [] := by simp [openRoot]

theorem openOrClose_ne_nil (equation : List Char) : openOrClose equation ≠ [] := by
  simp [openOrClose]

theorem completeNumber_ne_nil {equation token edited : List Char} (ht : token ≠ [])
    (he : completeNumber equation token = some edited) : edited ≠ [] := by
  unfold completeNumber at he
  repeat' split at he
  all_goals cases he
  all_goals simp [ht]

theorem swapOperator_ne_nil {equation token replaced : List Char} (h : equation ≠ [])
    (ht : token ≠ []) (hr : swapOperator equation token = .ok (some replaced)) : replaced ≠ [] := by
  unfold swapOperator at hr
  rw [last_of_ne_nil h] at hr
  simp only [bind, Except.bind, pure, Except.pure] at hr
  split at hr <;> cases hr
  simp [ht]

theorem typeToken_ne_nil {equation token edited : List Char} (h : equation ≠ []) (ht : token ≠ [])
    (he : typeToken equation token = .ok edited) : edited ≠ [] := by
  obtain ⟨replaced, hr⟩ := isOk_swapOperator h token
  unfold typeToken at he
  rw [hr] at he
  simp only [bind, Except.bind, pure, Except.pure] at he
  repeat' split at he
  all_goals cases he
  · exact h
  · exact ht
  · exact completeNumber_ne_nil ht ‹_›
  · exact swapOperator_ne_nil h ht hr
  · simp [h]

end Equation

end Calculator
