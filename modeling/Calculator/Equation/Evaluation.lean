import Calculator.Expr.Parser
import Calculator.Expr.Printer
import Calculator.Host
import Calculator.Number.Decimal

/-!
# Evaluating an equation

An equation is validated, parsed and evaluated, and the first fault ends this. Validation looks at
the end of the equation alone. Parsing takes calls inside one another, and evaluation goes down the
levels of the tree; where the host has too few of them, the equation is nested too deeply.

* `Equation.evaluate_equation`: a failure names the equation that failed;
* `Equation.calculate_eq_map`: calculating is evaluating, and then writing the decimal.
-/

namespace Calculator

namespace Equation

/-- Refuses an equation that ends where something must follow, or that ends by dividing by the
digit zero. -/
def validate (equation : List Char) : Except Fault Unit :=
  match equation.reverse with
  | [] => .ok ()
  | last :: before =>
    if Operator.isBinaryChar last then .error (.trailingOperator [last])
    else if last = '0' ∧ before.head?.map Operator.canonical = some '/' then
      .error .divisionByZero
    else if last = '(' then .error .unclosedGroup
    else .ok ()

/-- The line that reports a fault; for an equation that is nested too deeply there is none. -/
def report (fault : Fault) : List Char :=
  if fault = .tooDeep then []
  else "Error ".toList ++ fault.code ++ ": ".toList ++ fault.message ++ ['\n']

variable [Host]

/-- The tree of an equation, if the host has the calls to read it. -/
def parse (equation : List Char) : Except Fault Expr :=
  (Reading.wholeWithin (Host.frames equation) (Cursor.start equation)).1

/-- The value of a tree, if the host can walk its levels. -/
def value (tree : Expr) : Except Fault Binary64 :=
  if Host.levels tree < tree.depth then .error .tooDeep else tree.eval

/-- The decimal to which an equation evaluates, or why it does not. -/
def result (equation : List Char) : Except Fault Decimal := do
  validate equation
  let tree ← parse equation
  return Decimal.ofBinary64 (← value tree)

/-- The decimal to which an equation evaluates; a failure names the equation. -/
def evaluate (equation : List Char) : Except Failure Decimal :=
  (result equation).mapError fun fault => ⟨fault, some equation⟩

/-- The text of the result of an equation. -/
def calculate (equation : List Char) : Except Failure (List Char) :=
  (evaluate equation).map Decimal.plain

/-- The equation has a result. -/
def isValid (equation : List Char) : Bool := (evaluate equation).isOk

/-- What is printed about a tree before it is evaluated, and the fault if it has no value. -/
def traceTree (tree : Expr) : List Char :=
  "Final AST:\n".toList ++
    if Host.levels tree < tree.depth then []
    else
      tree.print ++ '\n' ::
        match tree.eval with
        | .ok _ => []
        | .error fault => report fault

/-- What is printed when an equation is evaluated for debugging. -/
def trace (equation : List Char) : List Char :=
  match validate equation, parse equation with
  | .error fault, _ => report fault
  | .ok _, .error fault => report fault
  | .ok _, .ok tree => traceTree tree

theorem evaluate_equation {equation : List Char} {failure : Failure}
    (h : evaluate equation = .error failure) : failure.equation = some equation := by
  unfold evaluate at h
  cases hr : result equation with
  | ok d => rw [hr] at h; cases h
  | error fault =>
    rw [hr] at h
    obtain rfl : (⟨fault, some equation⟩ : Failure) = failure := Except.error.inj h
    rfl

theorem calculate_eq_map (equation : List Char) :
    calculate equation = (evaluate equation).map Decimal.plain := rfl

end Equation

end Calculator
