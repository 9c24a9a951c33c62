import Calculator.Expr.Basic
import Calculator.Expr.Cursor
import Calculator.Number.Numeral

/-!
# Parsing an equation

    expression := term (('+' | '-') term)*
    term       := factor (('*' | '/') factor)*
    factor     := ('+' | '-') factor
                | ('(' expression ')' | numeral | function) ['^' factor]
    function   := name '(' expression ')' | name factor

Sums and products group to the left, powers to the right. A numeral is a run of digits and points,
a name a run of lowercase letters or the glyph of the square root. Spaces may stand between these.
Reading fails beyond a given count, of factors inside one another (`Reading.whole`) or of calls of
these readings inside one another (`Reading.wholeWithin`). A count of factors greater than the
length of the text never runs out.
-/

namespace Calculator

/-- A character of which names of functions are made. -/
def isNameChar (c : Char) : Bool := 'a' ≤ c && c ≤ 'z'

namespace Reading

/-- Reads the closing parenthesis of a group, or of the argument of a function. -/
def close (function : Option (List Char)) : Reading Unit := do
  if ← eat (some ')') then return ()
  else fail (.missingParenthesis function)

/-- Reads further operands, each after one of the operators, and groups to the left. The count
bounds the operands that may follow. -/
def chain (operators : List Char) (operand : Reading Expr) : Nat → Expr → Reading Expr
  | 0, tree => pure tree
  | count + 1, tree => do
    match ← eatAny operators with
    | some operator => chain operators operand count (.binary [operator] tree (← operand))
    | none => return tree

/-- Reads operands joined by operators. -/
def joined (operators : List Char) (operand : Reading Expr) : Reading Expr := do
  let first ← operand
  chain operators operand (← remaining) first

/-- Reads a term, given how to read its factors. -/
def term (factor : Reading Expr) : Reading Expr := joined ['*', '/'] factor

/-- Reads an expression, given how to read its factors. -/
def expression (factor : Reading Expr) : Reading Expr := joined ['+', '-'] (term factor)

/-- Reads a numeral. -/
def numeral : Reading Expr := do
  let text ← takeRun isNumeralChar
  match numeralValue? text with
  | some value => return .number value
  | none => fail (.malformedNumber text)

/-- Reads the argument of a function: a group, or else a factor; given how to read what stands
between parentheses, and factors. -/
def argument (function : List Char) (inside factor : Reading Expr) : Reading Expr := do
  if ← eat (some '(') then
    let tree ← inside
    close (some function)
    return tree
  else factor

/-- Reads the argument of the function with a given name. -/
def applied (name : List Char) (inside factor : Reading Expr) : Reading Expr := do
  let function := (Operator.symbol? name).getD name
  if Expr.isRootName function then return .call function (← argument function inside factor)
  else fail (.unknownFunction name)

/-- Reads what starts with the character at the cursor, which opens no group. -/
def atom (inside factor : Reading Expr) : Reading Expr := do
  match ← current? with
  | none => fail (.unexpected none)
  | some c =>
    if isNumeralChar c then numeral
    else if isNameChar c then applied (← takeRun isNameChar) inside factor
    else if [c] = Operator.squareRoot.glyph then applied (← takeOne) inside factor
    else fail (.unexpected (some [c]))

/-- Reads a group, a numeral or a function with its argument. -/
def primary (inside factor : Reading Expr) : Reading Expr := do
  if ← eat (some '(') then
    let tree ← inside
    close none
    return tree
  else atom inside factor

/-- Reads the exponent of a base, if one follows. -/
def powered (factor : Reading Expr) (base : Expr) : Reading Expr := do
  if ← eat (some '^') then return .binary ['^'] base (← factor)
  else return base

/-- Reads a factor: a sign and the factor after it, or what may have an exponent. -/
def signed (inside factor : Reading Expr) : Reading Expr := do
  match ← eatAny ['+', '-'] with
  | some sign => return .unary [sign] (← factor)
  | none => powered factor (← primary inside factor)

/-- Reads an expression that ends with the equation, given how to read expressions. -/
def ended (expression : Reading Expr) : Reading Expr := do
  let tree ← expression
  match ← current? with
  | none => return tree
  | some c => fail (.unexpected (some [c]))

/-! ## Nested factors -/

/-- Reads a factor with fewer than `nesting` factors inside one another. -/
def factor : Nat → Reading Expr
  | 0 => fail .tooDeep
  | nesting + 1 => fun c => signed (expression (factor nesting)) (factor nesting) c

/-- Reads a whole equation with fewer than `nesting` factors inside one another. -/
def whole (nesting : Nat) : Reading Expr := ended (expression (factor nesting))

/-! ## Calls

A parenthesis takes three calls, one each for the expression inside it and for its first term and
factor; a sign, an exponent and a function without parentheses take one. -/

mutual

/-- Reads an expression with at most so many calls inside one another. -/
def expressionWithin : Nat → Reading Expr
  | 0 => fail .tooDeep
  | calls + 1 => fun c => joined ['+', '-'] (termWithin calls) c

/-- Reads a term with at most so many calls inside one another. -/
def termWithin : Nat → Reading Expr
  | 0 => fail .tooDeep
  | calls + 1 => fun c => joined ['*', '/'] (factorWithin calls) c

/-- Reads a factor with at most so many calls inside one another. -/
def factorWithin : Nat → Reading Expr
  | 0 => fail .tooDeep
  | calls + 1 => fun c => signed (expressionWithin calls) (factorWithin calls) c

end

/-- Reads a whole equation with at most so many calls inside one another. -/
def wholeWithin (calls : Nat) : Reading Expr := ended (expressionWithin calls)

end Reading

/-- A count of nested factors that no reading from the cursor reaches. -/
def Cursor.unlimited (c : Cursor) : Nat := c.rest.length + 1

/-- The tree of an equation of any depth. -/
def Expr.parse (text : List Char) : Except Fault Expr :=
  (Reading.whole (Cursor.start text).unlimited (Cursor.start text)).1

end Calculator
