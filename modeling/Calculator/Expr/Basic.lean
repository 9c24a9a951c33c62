import Calculator.Fault
import Calculator.Number.Arithmetic
import Calculator.Number.Power
import Calculator.Operator

/-!
# Expressions

The tree of an equation. Operators and function names are texts, and a tree may hold any: its value
then is the fault of the first that is unknown, in the order of evaluation. The operands of an
operator and the argument of a function are evaluated before it, from left to right.

* `Expr.Sound`: the trees whose operators and functions are all known;
* `Expr.eval_of_sound`: these have a value.
-/

namespace Calculator

/-- An expression: a number, a sign and its operand, an operator and two operands, or a function
and its argument. -/
inductive Expr where
  | number (value : Binary64)
  | unary (operator : List Char) (operand : Expr)
  | binary (operator : List Char) (left right : Expr)
  | call (function : List Char) (argument : Expr)
  deriving DecidableEq

namespace Expr

/-- The name is one of the square root. -/
def isRootName (name : List Char) : Bool :=
  name == Operator.squareRoot.symbol || name == Operator.squareRoot.glyph

/-- The operator applied to the values of its operands. -/
def applyBinary (operator : List Char) (left right : Binary64) : Except Fault Binary64 :=
  match operator with
  | ['+'] => .ok (left.add right)
  | ['-'] => .ok (left.sub right)
  | ['*'] => .ok (left.mul right)
  | ['/'] => .ok (left.divide right)
  | ['^'] => .ok (left.power right)
  | _ => .error (.unexpected (some operator))

/-- The function applied to the value of its argument. -/
def applyFunction (name : List Char) (argument : Binary64) : Except Fault Binary64 :=
  if isRootName name then .ok argument.squareRoot else .error (.unknownFunction name)

/-- The sign applied to the value of its operand; any sign but minus keeps it. -/
def applySign (operator : List Char) (operand : Binary64) : Binary64 :=
  if operator = ['-'] then operand.neg else operand

/-- The value of an expression. -/
def eval : Expr → Except Fault Binary64
  | number value => .ok value
  | unary operator operand => (operand.eval).map (applySign operator)
  | binary operator left right => do
    let l ← left.eval
    let r ← right.eval
    applyBinary operator l r
  | call function argument => do applyFunction function (← argument.eval)

/-- The depth of an expression. -/
def depth : Expr → Nat
  | number _ => 1
  | unary _ operand => operand.depth + 1
  | binary _ left right => max left.depth right.depth + 1
  | call _ argument => argument.depth + 1

/-- The operators of two operands. -/
def binarySymbols : List (List Char) := [['+'], ['-'], ['*'], ['/'], ['^']]

/-- Every operator of two operands and every function is known. -/
def Sound : Expr → Prop
  | number _ => True
  | unary _ operand => operand.Sound
  | binary operator left right => operator ∈ binarySymbols ∧ left.Sound ∧ right.Sound
  | call function argument => isRootName function ∧ argument.Sound

theorem applyBinary_of_mem {operator : List Char} (h : operator ∈ binarySymbols)
    (left right : Binary64) : ∃ x, applyBinary operator left right = .ok x := by
  simp only [binarySymbols, List.mem_cons, List.not_mem_nil, or_false] at h
  rcases h with rfl | rfl | rfl | rfl | rfl <;> exact ⟨_, rfl⟩

theorem eval_of_sound {e : Expr} (h : e.Sound) : ∃ x, e.eval = .ok x := by
  induction e with
  | number value => exact ⟨value, rfl⟩
  | unary operator operand ih =>
    obtain ⟨x, hx⟩ := ih h
    exact ⟨applySign operator x, by rw [eval, hx]; rfl⟩
  | binary operator left right ihl ihr =>
    obtain ⟨x, hx⟩ := ihl h.2.1
    obtain ⟨y, hy⟩ := ihr h.2.2
    obtain ⟨z, hz⟩ := applyBinary_of_mem h.1 x y
    exact ⟨z, by rw [eval, hx, hy]; exact hz⟩
  | call function argument ih =>
    obtain ⟨x, hx⟩ := ih h.2
    refine ⟨x.squareRoot, ?_⟩
    rw [eval, hx]
    simp [bind, Except.bind, applyFunction, h.1]

end Expr

end Calculator
