import Calculator.Expr.Basic
import Calculator.Number.Shortest

/-!
# The printed form of an expression

A tree is printed as nested nodes, each with its kind, its operator or function in quotes, and its
parts. A number is printed with the fewest digits that read back.
-/

namespace Calculator

/-- Numbers of a tree: powers of ten from -4 to 15 without an exponent, else an exponent of at
least two digits. -/
def treeNumbers : NumberStyle := ⟨-4, 15, 2, ['i', 'n', 'f'], ['n', 'a', 'n']⟩

namespace Expr

/-- The printed form of an expression. -/
def print : Expr → List Char
  | number value => "Number(".toList ++ treeNumbers.write value ++ [')']
  | unary operator operand =>
    "UnaryOp(".toList ++ quoted operator ++ ", ".toList ++ operand.print ++ [')']
  | binary operator left right =>
    "BinOp(".toList ++ quoted operator ++ ", left=".toList ++ left.print ++
      ", right=".toList ++ right.print ++ [')']
  | call function argument =>
    "Function(".toList ++ quoted function ++ ", ".toList ++ argument.print ++ [')']

end Expr

end Calculator
