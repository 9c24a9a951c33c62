import Calculator.Proofs.Equation.Evaluation
import Calculator.Proofs.State.Run

/-!
# Keys are total

A rule of typing that reads the last character refuses the empty text, and
what evaluates an equation catches failures alone. `Guarded.edit` and
`Guarded.press` apply a key with whatever is not caught (`Escape`). Nothing
escapes, on any line and in any state, typed or not:

* `Line.editTyped_eq_error_iff`: which keys would be refused if the empty text
  did not count as blank;
* `Guarded.edit_eq_ok`, `Guarded.solve_eq_ok`, `Guarded.press_eq_ok`: one key;
* `Guarded.foldlM_apply`, `Guarded.foldlM_pressAny`: a run of keys;
* `Guarded.keys_total`: all of this, and no known key leaves an empty equation.
-/

namespace Calculator

/-! ## Refusals -/

namespace Equation

variable {α : Type} {text token exponent : List Char}

theorem refuses_iff (rule : List Char → Except EditError α)
    (hn : rule [] = .error .noLastCharacter)
    (hr : text ≠ [] → ∃ edited, rule text = .ok edited) :
    rule text = .error .noLastCharacter ↔ text = [] := by
  refine ⟨fun h => ?_, fun h => h ▸ hn⟩
  by_contra ht
  obtain ⟨edited, he⟩ := hr ht
  rw [he] at h
  cases h

theorem toggleSign_refuses_iff : toggleSign text = .error .noLastCharacter ↔ text = [] :=
  refuses_iff toggleSign rfl isOk_toggleSign

theorem raise_refuses_iff : raise text exponent = .error .noLastCharacter ↔ text = [] :=
  refuses_iff (raise · exponent) rfl fun h => isOk_raise h exponent

theorem swapOperator_refuses_iff : swapOperator text token = .error .noLastCharacter ↔ text = [] :=
  refuses_iff (swapOperator · token) rfl fun h => isOk_swapOperator h token

theorem typeToken_refuses_iff : typeToken text token = .error .noLastCharacter ↔ text = [] :=
  refuses_iff (typeToken · token) rfl fun h => isOk_typeToken h token

end Equation

namespace Line

/-- The rule of the key reads the last character of the equation. -/
def readsLast : Key → Bool
  | .clear | .clearEntry | .delete | .equals | .squareRoot | .parentheses => false
  | _ => true

theorem rule_eq_error_iff {rule : Except EditError (List Char)} {f : List Char → Line}
    {refusal : EditError} :
    (do return f (← rule) : Except EditError Line) = .error refusal ↔ rule = .error refusal := by
  cases rule with
  | ok equation => exact ⟨nofun, nofun⟩
  | error other => exact ⟨fun h => by cases h; rfl, fun h => by cases h; rfl⟩

variable [Host]

/-- The keys that would be refused on the empty equation, were it not blank. -/
theorem editTyped_eq_error_iff {line : Line} {key : Key} :
    editTyped line key = .error .noLastCharacter ↔
      line.equation = [] ∧ readsLast key = true := by
  cases key with
  | clear | clearEntry | delete | equals | squareRoot | parentheses =>
    exact ⟨nofun, fun h => absurd h.2 (by decide)⟩
  | plusMinus =>
    exact rule_eq_error_iff.trans (Equation.toggleSign_refuses_iff.trans (and_iff_left rfl).symm)
  | powerTwo | powerY =>
    exact rule_eq_error_iff.trans (Equation.raise_refuses_iff.trans (and_iff_left rfl).symm)
  | _ =>
    exact rule_eq_error_iff.trans (Equation.typeToken_refuses_iff.trans (and_iff_left rfl).symm)

end Line

/-! ## What escapes -/

/-- What is not caught where a key is applied. -/
inductive Escape where
  /-- The refusal of a rule of typing. -/
  | refusal (refusal : EditError)
  /-- A trap in the evaluation of an equation. -/
  | trap (trap : Trap)
  deriving DecidableEq

namespace Guarded

variable [Host] (message : Trap → List Char) (line : Line) (state : State)

/-- The equation has a result; failures are caught. -/
def isValid (equation : List Char) : Except Escape Bool :=
  ((evaluate message equation).mapError .trap).map Except.isOk

/-- The text of the result of an equation. -/
def calculate (equation : List Char) : Except Escape (Except Failure (List Char)) :=
  ((evaluate message equation).mapError .trap).map (Except.map Decimal.plain)

/-- Evaluates the equation of a state; failures are caught. -/
def solve : Except Escape (State × Option Failure) := do
  match ← calculate message state.equation with
  | .ok result => return (⟨state.equation, false, result⟩, none)
  | .error failure => return (⟨state.equation, true, state.result⟩, some failure)

/-- Applies a key to a line; an empty equation counts as blank. -/
def edit (key : Key) : Except Escape Line :=
  let equation := Equation.ofTyped line.equation
  if key = .equals then do
    let valid ← isValid message equation
    return ⟨equation, !valid⟩
  else (Line.editTyped ⟨equation, line.error⟩ key).mapError .refusal

/-- Applies a key that may be unknown. -/
def apply (line : Line) : Option Key → Except Escape Line
  | some key => edit message line key
  | none => .ok line

/-- Presses a key in a state. -/
def press (key : Key) : Except Escape State :=
  if key = .equals then do
    let (solved, _) ← solve message state
    return solved
  else do
    let edited ← edit message state.line key
    return ⟨edited.equation, edited.error, if key = .clear then ['0'] else state.result⟩

/-- Presses a key that may be unknown. -/
def pressAny (state : State) : Option Key → Except Escape State
  | some key => press message state key
  | none => .ok state

/-! ## Nothing escapes -/

theorem isValid_eq_ok (equation : List Char) :
    isValid message equation = .ok (Equation.isValid equation) := by
  rw [isValid, evaluate_eq_ok]
  rfl

theorem calculate_eq_ok (equation : List Char) :
    calculate message equation = .ok (Equation.calculate equation) := by
  rw [calculate, evaluate_eq_ok, Equation.calculate_eq_map]
  rfl

theorem solve_eq_ok : solve message state = .ok state.solve := by
  rw [solve, calculate_eq_ok, State.solve]
  cases Equation.calculate state.equation <;> rfl

theorem edit_eq_ok (key : Key) : edit message line key = .ok (line.edit key) := by
  rw [edit]
  by_cases he : key = .equals
  · rw [if_pos he, he, isValid_eq_ok, Line.edit_equals]
    rfl
  · rw [if_neg he]
    exact congrArg (Except.mapError Escape.refusal) (Line.edit?_eq_ok line key)

theorem apply_eq_ok (key : Option Key) : apply message line key = .ok (line.apply key) := by
  cases key with
  | none => rfl
  | some key => exact edit_eq_ok message line key

theorem press_eq_ok (key : Key) : press message state key = .ok (state.press key) := by
  rw [press, State.press]
  by_cases he : key = .equals
  · rw [if_pos he, if_pos he, solve_eq_ok]
    rfl
  · rw [if_neg he, if_neg he, edit_eq_ok]
    rfl

theorem pressAny_eq_ok (key : Option Key) :
    pressAny message state key = .ok (state.pressAny key) := by
  cases key with
  | none => rfl
  | some key => exact press_eq_ok message state key

theorem foldlM_apply (keys : List (Option Key)) :
    keys.foldlM (apply message) line = .ok (keys.foldl Line.apply line) := by
  have h : apply message = fun line key => pure (line.apply key) := funext₂ (apply_eq_ok message)
  rw [h]
  exact List.foldlM_pure

theorem foldlM_pressAny (keys : List (Option Key)) :
    keys.foldlM (pressAny message) state = .ok (keys.foldl State.pressAny state) := by
  have h : pressAny message = fun state key => pure (state.pressAny key) :=
    funext₂ (pressAny_eq_ok message)
  rw [h]
  exact List.foldlM_pure

/-- Nothing escapes where a key is applied to a line, where a state is solved and where a key is
pressed, for whatever equations, marks and keys, known or not, one after another. The rules that
read the last character refuse the empty text, and so would their keys; but none of them is ever
given it, and what a known key leaves is not empty either. -/
theorem keys_total :
    (∀ line key, apply message line key = .ok (line.apply key)) ∧
    (∀ state, solve message state = .ok state.solve) ∧
    (∀ state key, pressAny message state key = .ok (state.pressAny key)) ∧
    (∀ (keys : List (Option Key)) line,
      keys.foldlM (apply message) line = .ok (keys.foldl Line.apply line)) ∧
    (∀ (keys : List (Option Key)) state,
      keys.foldlM (pressAny message) state = .ok (keys.foldl State.pressAny state)) ∧
    (∀ text exponent token,
      (Equation.toggleSign text = .error .noLastCharacter ↔ text = []) ∧
      (Equation.raise text exponent = .error .noLastCharacter ↔ text = []) ∧
      (Equation.swapOperator text token = .error .noLastCharacter ↔ text = [])) ∧
    (∀ line key, Line.editTyped line key = .error .noLastCharacter ↔
      line.equation = [] ∧ Line.readsLast key = true) ∧
    ∀ line key, edit message line key = .ok (line.edit key) ∧ (line.edit key).equation ≠ [] :=
  ⟨apply_eq_ok message, solve_eq_ok message, pressAny_eq_ok message,
    fun keys line => foldlM_apply message line keys,
    fun keys state => foldlM_pressAny message state keys,
    fun _ _ _ => ⟨Equation.toggleSign_refuses_iff, Equation.raise_refuses_iff,
      Equation.swapOperator_refuses_iff⟩,
    fun _ _ => Line.editTyped_eq_error_iff,
    fun line key => ⟨edit_eq_ok message line key, line.edit_equation_ne_nil key⟩⟩

end Guarded

end Calculator
