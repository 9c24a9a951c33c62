import Calculator.Text.Quoted

/-!
# Faults

Why an equation has no result. A fault has a code of four digits, whose first names the area and
whose second tells validation from parsing, a message of its own, and a description for users,
which depends on the code alone. A `Failure` adds the equation, once it is known.
-/

namespace Calculator

/-- The stage at which an equation fails. -/
inductive Stage where
  | validation
  | parsing
  | running
  deriving DecidableEq

/-- The causes for which an equation is refused. -/
inductive Fault where
  /-- Nothing follows the last operator. -/
  | trailingOperator (operator : List Char)
  /-- The equation ends by dividing by a literal zero. -/
  | divisionByZero
  /-- Nothing follows the last opening parenthesis. -/
  | unclosedGroup
  /-- No term, or nothing but the end, can stand here; `none` is the end of the equation. -/
  | unexpected (found : Option (List Char))
  /-- A group, or the argument of a function, is not closed. -/
  | missingParenthesis (function : Option (List Char))
  | unknownFunction (name : List Char)
  | malformedNumber (text : List Char)
  /-- The equation is nested too deeply. -/
  | tooDeep
  /-- A fault with a code and a message of its own. -/
  | custom (stage : Stage) (code message : List Char)
  deriving DecidableEq

/-- A fault and the equation that has it, if known. -/
structure Failure where
  fault : Fault
  equation : Option (List Char)
  deriving DecidableEq

namespace Fault

/-- The code of faults that no other code foresees. -/
def unforeseenCode : List Char := ['9', '9', '9', '9']

/-- The code of the fault. -/
def code : Fault → List Char
  | trailingOperator _ => ['3', '1', '0', '1']
  | divisionByZero => ['3', '1', '0', '2']
  | unclosedGroup => ['3', '1', '0', '3']
  | unexpected _ => ['3', '2', '0', '1']
  | missingParenthesis _ => ['3', '2', '0', '2']
  | unknownFunction _ => ['3', '2', '0', '3']
  | malformedNumber _ => ['3', '2', '0', '4']
  | tooDeep => unforeseenCode
  | custom _ code _ => code

/-- The stage at which the fault arises. -/
def stage : Fault → Stage
  | trailingOperator _ | divisionByZero | unclosedGroup => .validation
  | unexpected _ | missingParenthesis _ | unknownFunction _ | malformedNumber _ => .parsing
  | tooDeep => .running
  | custom stage _ _ => stage

/-- The message of the fault. -/
def message : Fault → List Char
  | trailingOperator operator => "Equation ends with operator '".toList ++ operator ++ "'.".toList
  | divisionByZero => "Division by zero.".toList
  | unclosedGroup => "Equation ends with an open parenthesis.".toList
  | unexpected none => "Unexpected: end of input".toList
  | unexpected (some found) => "Unexpected: ".toList ++ quoted found
  | missingParenthesis none => "Missing ')'".toList
  | missingParenthesis (some function) => "Missing ')' after argument to ".toList ++ function
  | unknownFunction name => "Unknown function: ".toList ++ name
  | malformedNumber text => "Malformed number: ".toList ++ text
  | tooDeep => "maximum recursion depth exceeded".toList
  | custom _ _ message => message

/-- The areas that the first digit of a code names. -/
def areas : List (List Char × String) :=
  [(['3'], "Calculator Error"), (['4'], "UI Error"), (['5'], "Configuration Error"),
    (['9'], "Runtime Error")]

/-- What users read about a code. -/
def explanations : List (List Char × String) :=
  [(['3', '1', '0', '1'], "Equation ends with an operator."),
    (['3', '1', '0', '2'], "Division by Zero"),
    (['3', '1', '0', '3'], "Missing value after '('."),
    (['3', '2', '0', '1'], "Unexpected Token: "),
    (['3', '2', '0', '2'], "Missing ')'. "),
    (['3', '2', '0', '3'], "Unknown function: "),
    (['3', '2', '0', '4'], "Invalid Number: "),
    (['4', '0', '0', '1'], "Clipboard not available."),
    (['5', '0', '0', '1'], "Settings could not be loaded or saved."),
    (unforeseenCode, "Unexpected Error: ")]

/-- The area of a code. -/
def area (code : List Char) : String := (areas.lookup (code.take 1)).getD "Error"

/-- What users read about a code. -/
def explanation (code : List Char) : String := (explanations.lookup code).getD "Unknown error"

/-- What users read about a fault: its area, its code and what the code means. -/
def describe (fault : Fault) : List Char :=
  (area fault.code).toList ++ ' ' :: fault.code ++ ':' :: ' ' :: (explanation fault.code).toList

end Fault

end Calculator
