import Calculator.Operator

/-!
# Keys

Every input that the calculator understands: the keys of the button grid, row by row, and the two
parentheses, which only a keyboard has. A key is known by its token, and also by its label, the
glyph that its button shows.

* `Key.ofToken?_token`: a key is found by its own token.
-/

namespace Calculator

/-- The keys, in the order of the button grid. -/
inductive Key where
  | parentheses
  | clearEntry
  | clear
  | delete
  | powerTwo
  | powerY
  | squareRoot
  | divide
  | seven
  | eight
  | nine
  | multiply
  | four
  | five
  | six
  | subtract
  | one
  | two
  | three
  | add
  | plusMinus
  | zero
  | dot
  | equals
  | openParenthesis
  | closeParenthesis
  deriving DecidableEq

namespace Key

/-- The keys of the button grid, row by row. -/
def buttons : List Key :=
  [parentheses, clearEntry, clear, delete, powerTwo, powerY, squareRoot, divide, seven, eight, nine,
    multiply, four, five, six, subtract, one, two, three, add, plusMinus, zero, dot, equals]

/-- All keys in order. -/
def all : List Key := buttons ++ [openParenthesis, closeParenthesis]

/-- The name of the key, which its button carries too. -/
def name : Key → String
  | parentheses => "PARENTHESES"
  | clearEntry => "CE"
  | clear => "CLEAR"
  | delete => "DELETE"
  | powerTwo => Operator.powerTwo.name
  | powerY => Operator.powerY.name
  | squareRoot => Operator.squareRoot.name
  | divide => Operator.divide.name
  | seven => "SEVEN"
  | eight => "EIGHT"
  | nine => "NINE"
  | multiply => Operator.multiply.name
  | four => "FOUR"
  | five => "FIVE"
  | six => "SIX"
  | subtract => Operator.subtract.name
  | one => "ONE"
  | two => "TWO"
  | three => "THREE"
  | add => Operator.add.name
  | plusMinus => Operator.plusMinus.name
  | zero => "ZERO"
  | dot => "DOT"
  | equals => "EQUALS"
  | openParenthesis => "OPEN_PARENTHESIS"
  | closeParenthesis => "CLOSE_PARENTHESIS"

/-- The text by which the key is known; most keys add it to the equation. -/
def token : Key → List Char
  | parentheses => ['(', ' ', ')']
  | clearEntry => ['C', 'E']
  | clear => ['C']
  | delete => ['D', 'e', 'l']
  | powerTwo => Operator.powerTwo.symbol
  | powerY => Operator.powerY.symbol
  | squareRoot => Operator.squareRoot.symbol
  | divide => Operator.divide.symbol
  | seven => ['7']
  | eight => ['8']
  | nine => ['9']
  | multiply => Operator.multiply.symbol
  | four => ['4']
  | five => ['5']
  | six => ['6']
  | subtract => Operator.subtract.symbol
  | one => ['1']
  | two => ['2']
  | three => ['3']
  | add => Operator.add.symbol
  | plusMinus => Operator.plusMinus.symbol
  | zero => ['0']
  | dot => ['.']
  | equals => ['=']
  | openParenthesis => ['(']
  | closeParenthesis => [')']

/-- The text on the button: the glyph of an operator, else the token. -/
def label (key : Key) : List Char := (Operator.glyph? key.token).getD key.token

/-- The key is one of the ten digits. -/
def isDigit : Key → Bool
  | zero | one | two | three | four | five | six | seven | eight | nine => true
  | _ => false

/-- The key with a given token or label. -/
def ofToken? (text : List Char) : Option Key :=
  all.find? fun key => key.token == text || key.label == text

/-- The key with a given name. -/
def ofName? (name : String) : Option Key := all.find? fun key => key.name == name

/-- The key that a typed text means: `x` multiplies, and `^` raises to a power. -/
def ofTyped? (text : List Char) : Option Key :=
  if text = ['x'] ∨ text = ['X'] then some multiply
  else if text = ['^'] then some powerY
  else ofToken? text

theorem ofToken?_token (key : Key) : ofToken? key.token = some key := by
  cases key <;> decide

end Key

end Calculator
