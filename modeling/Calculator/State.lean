import Calculator.Line

/-!
# The state of the calculator

The state is all that is shown: the line that is typed and the last result. Pressing `=` solves the
state, which keeps the equation and either replaces the result or marks the line as wrong; `C`
resets the result too; every other key edits the line.

* `State.press_equals`: `=` solves the state;
* `State.solve_equation`: solving keeps the equation.
-/

namespace Calculator

/-- What the calculator shows: the equation, whether it is marked as wrong, and the result. -/
structure State where
  equation : List Char := Equation.blank
  error : Bool := false
  result : List Char := ['0']
  deriving DecidableEq

namespace State

/-- The state in which the calculator starts. -/
def initial : State := {}

/-- The line of a state. -/
def line (state : State) : Line := ⟨state.equation, state.error⟩

variable [Host]

/-- Evaluates the equation of a state. A failure marks the line and keeps the result. -/
def solve (state : State) : State × Option Failure :=
  match Equation.calculate state.equation with
  | .ok result => (⟨state.equation, false, result⟩, none)
  | .error failure => (⟨state.equation, true, state.result⟩, some failure)

/-- The state after a key. -/
def press (state : State) (key : Key) : State :=
  if key = .equals then state.solve.1
  else
    let edited := state.line.edit key
    ⟨edited.equation, edited.error, if key = .clear then ['0'] else state.result⟩

/-- The state after a key that may be unknown; an unknown key changes nothing. -/
def pressAny (state : State) : Option Key → State
  | some key => state.press key
  | none => state

/-- What is printed when a key is pressed, when debugging. -/
def trace (state : State) : Option Key → List Char
  | some .equals => Equation.trace state.equation
  | key => state.line.trace key

/-- The equation as it is shown. -/
def display (state : State) : List Char := Operator.display state.equation

theorem press_equals (state : State) : state.press .equals = state.solve.1 := rfl

theorem solve_equation (state : State) : state.solve.1.equation = state.equation := by
  unfold solve
  split <;> rfl

end State

end Calculator
