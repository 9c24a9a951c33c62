import Calculator.State

/-!
# Runs of keys

A key changes the line of a state as it changes a line alone. For `=` the two go different ways: a
line asks whether its equation has a result, and a state calculates the result. They agree as long
as the equation is not empty, since only a line takes an empty equation for blank; and no key
empties an equation.

* `State.line_press`: what one key does to the line of a state;
* `State.line_foldl`: what a run of keys does.
-/

namespace Calculator

variable [Host]

namespace Equation

/-- Calculating fails exactly when evaluating does. -/
theorem isValid_eq_isOk_calculate (equation : List Char) :
    isValid equation = (calculate equation).isOk := by
  rw [isValid, calculate_eq_map]
  cases evaluate equation <;> rfl

end Equation

namespace Line

open Equation

theorem edit_equals (line : Line) :
    line.edit .equals = ⟨ofTyped line.equation, !isValid (ofTyped line.equation)⟩ :=
  (Except.ok.inj (edit?_eq_ok line .equals)).symm

end Line

namespace State

open Equation

variable {state : State}

/-- Solving marks the line exactly if its equation has no result. -/
theorem solve_error (state : State) : state.solve.1.error = !isValid state.equation := by
  rw [isValid_eq_isOk_calculate]
  unfold solve
  split <;> rename_i h <;> rw [h] <;> rfl

theorem line_solve (state : State) :
    state.solve.1.line = ⟨state.equation, !isValid state.equation⟩ := by
  rw [line, solve_equation, solve_error]

/-- What one key does to the line. -/
theorem line_press (h : state.equation ≠ []) (key : Key) :
    (state.press key).line = state.line.edit key := by
  by_cases he : key = .equals
  · have ht : ofTyped state.line.equation = state.equation := ofTyped_of_ne_nil h
    rw [he, press_equals, line_solve, Line.edit_equals, ht]
  · rw [press, if_neg he]
    rfl

/-- No key empties the equation. -/
theorem press_equation_ne_nil (h : state.equation ≠ []) (key : Key) :
    (state.press key).equation ≠ [] := by
  have he : (state.press key).equation = (state.line.edit key).equation := by
    rw [← line_press h]
    rfl
  rw [he]
  exact Line.edit_equation_ne_nil _ _

theorem line_pressAny (h : state.equation ≠ []) (key : Option Key) :
    (state.pressAny key).line = state.line.apply key := by
  cases key with
  | none => rfl
  | some key => exact line_press h key

theorem pressAny_equation_ne_nil (h : state.equation ≠ []) (key : Option Key) :
    (state.pressAny key).equation ≠ [] := by
  cases key with
  | none => exact h
  | some key => exact press_equation_ne_nil h key

/-- What a run of keys does to the line, by induction on the keys. -/
theorem line_foldl (h : state.equation ≠ []) (keys : List (Option Key)) :
    (keys.foldl pressAny state).line = keys.foldl Line.apply state.line := by
  induction keys generalizing state with
  | nil => rfl
  | cons key keys ih =>
    rw [List.foldl_cons, List.foldl_cons, ← line_pressAny h, ih (pressAny_equation_ne_nil h key)]

end State

end Calculator
