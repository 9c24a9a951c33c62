import Calculator.Equation.Evaluation
import Calculator.Equation.Rules
import Calculator.Key

/-!
# The line that is typed

A line is an equation and a mark that it is wrong. `Line.edit?` applies a key by the rules of
typing, and hands on the refusal of a rule; the empty text counts as blank, so no rule ever
refuses, and `Line.edit` is the edited line.

* `Line.edit?_eq_ok`: an edit always succeeds;
* `Line.edit_equation_ne_nil`: and leaves an equation that is not empty.
-/

namespace Calculator

/-- An equation as it is typed, and whether it is marked as wrong. -/
structure Line where
  equation : List Char
  error : Bool
  deriving DecidableEq

namespace Line

/-- The line before anything is typed. -/
def initial : Line := ⟨Equation.blank, false⟩

/-- Keys that add their token and show that the equation is being corrected. -/
def clearsError (key : Key) : Bool :=
  key.isDigit || key == .dot || key == .openParenthesis || key == .closeParenthesis

theorem exists_rule_of_ok {rule : Except EditError (List Char)} {f : List Char → Line}
    {edited : Line} (h : (do return f (← rule) : Except EditError Line) = .ok edited) :
    ∃ equation, rule = .ok equation ∧ f equation = edited := by
  cases rule with
  | ok equation => exact ⟨equation, rfl, Except.ok.inj h⟩
  | error refusal => cases h

variable [Host]

/-- Applies a key to a line whose equation is not empty. -/
def editTyped (line : Line) (key : Key) : Except EditError Line :=
  match key with
  | .clear | .clearEntry => .ok initial
  | .delete => .ok ⟨Equation.deleteLast line.equation, false⟩
  | .equals => .ok ⟨line.equation, !Equation.isValid line.equation⟩
  | .plusMinus => do return ⟨← Equation.toggleSign line.equation, line.error⟩
  | .powerTwo => do return ⟨← Equation.raise line.equation ['(', '2', ')'], line.error⟩
  | .powerY => do return ⟨← Equation.raise line.equation ['('], line.error⟩
  | .squareRoot => .ok ⟨Equation.openRoot line.equation, line.error⟩
  | .parentheses => .ok ⟨Equation.openOrClose line.equation, false⟩
  | _ => do
    return ⟨← Equation.typeToken line.equation key.token, line.error && !clearsError key⟩

/-- Applies a key to a line; an empty equation counts as blank. -/
def edit? (line : Line) (key : Key) : Except EditError Line :=
  editTyped ⟨Equation.ofTyped line.equation, line.error⟩ key

theorem isOk_editTyped {line : Line} (h : line.equation ≠ []) (key : Key) :
    ∃ edited, editTyped line key = .ok edited := by
  obtain ⟨negated, hn⟩ := Equation.isOk_toggleSign h
  obtain ⟨squared, hs⟩ := Equation.isOk_raise h ['(', '2', ')']
  obtain ⟨raised, hp⟩ := Equation.isOk_raise h ['(']
  obtain ⟨appended, ha⟩ := Equation.isOk_typeToken h key.token
  simp only [editTyped, hn, hs, hp, ha, bind, Except.bind, pure, Except.pure]
  split <;> exact ⟨_, rfl⟩

theorem isOk_edit? (line : Line) (key : Key) : ∃ edited, edit? line key = .ok edited :=
  isOk_editTyped (Equation.ofTyped_ne_nil line.equation) key

/-- The line after a key. -/
def edit (line : Line) (key : Key) : Line :=
  match h : edit? line key with
  | .ok edited => edited
  | .error _ => absurd h (by obtain ⟨edited, he⟩ := isOk_edit? line key; simp [he])

theorem edit?_eq_ok (line : Line) (key : Key) : edit? line key = .ok (line.edit key) := by
  unfold edit
  split
  · assumption
  · rename_i h
    obtain ⟨edited, he⟩ := isOk_edit? line key
    rw [he] at h
    exact absurd h (by simp)

theorem editTyped_equation_ne_nil {line edited : Line} (h : line.equation ≠ []) {key : Key}
    (he : editTyped line key = .ok edited) : edited.equation ≠ [] := by
  cases key with
  | clear | clearEntry =>
    cases he
    exact List.cons_ne_nil _ _
  | delete =>
    cases he
    exact Equation.deleteLast_ne_nil h
  | equals =>
    cases he
    exact h
  | squareRoot =>
    cases he
    exact Equation.openRoot_ne_nil _
  | parentheses =>
    cases he
    exact Equation.openOrClose_ne_nil _
  | plusMinus =>
    obtain ⟨equation, hr, rfl⟩ := exists_rule_of_ok he
    exact Equation.toggleSign_ne_nil h hr
  | powerTwo | powerY =>
    obtain ⟨equation, hr, rfl⟩ := exists_rule_of_ok he
    exact Equation.raise_ne_nil h hr
  | _ =>
    obtain ⟨equation, hr, rfl⟩ := exists_rule_of_ok he
    exact Equation.typeToken_ne_nil h (List.cons_ne_nil _ _) hr

theorem edit_equation_ne_nil (line : Line) (key : Key) : (line.edit key).equation ≠ [] :=
  editTyped_equation_ne_nil (Equation.ofTyped_ne_nil line.equation) (edit?_eq_ok line key)

/-- The line after a key that may be unknown; an unknown key changes nothing. -/
def apply (line : Line) : Option Key → Line
  | some key => line.edit key
  | none => line

/-- What is printed about a power that cannot be added, when debugging. -/
def powerNotice (equation : List Char) : List Char :=
  match equation.getLast? with
  | some c =>
    if Equation.takesPower c then [] else "Power ignored after '".toList ++ c :: "'\n".toList
  | none => []

/-- What is printed when a key is applied to a line, when debugging. -/
def trace (line : Line) : Option Key → List Char
  | some .equals => Equation.trace (Equation.ofTyped line.equation)
  | some .powerTwo | some .powerY => powerNotice (Equation.ofTyped line.equation)
  | _ => []

end Line

end Calculator
