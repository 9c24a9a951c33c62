import Calculator.Text.Replace

/-!
# Operators

Every operator has a glyph, which buttons and labels show, and a symbol, which stands in an
equation. Both are texts, for some operators are written with several characters. Four operators
join two terms; only these may stand as a single character inside an equation.

* `Operator.canonicalText_singleton`: the symbol of a glyph, for texts and for characters;
* `Operator.isBinary_singleton`: the characters that join two terms.
-/

namespace Calculator

/-- The operators, in the order of the table. -/
inductive Operator where
  | multiply
  | divide
  | add
  | subtract
  | squareRoot
  | powerTwo
  | powerY
  | plusMinus
  deriving DecidableEq

namespace Operator

/-- The operators in order. -/
def all : List Operator :=
  [multiply, divide, add, subtract, squareRoot, powerTwo, powerY, plusMinus]

/-- The operators that join two terms. -/
def binary : List Operator := [multiply, divide, add, subtract]

/-- The name of the operator. -/
def name : Operator → String
  | multiply => "MULTIPLY"
  | divide => "DIVIDE"
  | add => "ADD"
  | subtract => "SUBTRACT"
  | squareRoot => "SQUARE_ROOT"
  | powerTwo => "POWER_TWO"
  | powerY => "POWER_Y"
  | plusMinus => "PLUS_MINUS"

/-- What a button or label shows. -/
def glyph : Operator → List Char
  | multiply => ['×']
  | divide => ['÷']
  | add => ['+']
  | subtract => ['-']
  | squareRoot => ['√']
  | powerTwo => ['X', '²']
  | powerY => ['X', 'ʸ']
  | plusMinus => ['±']

/-- What stands in an equation. -/
def symbol : Operator → List Char
  | multiply => ['*']
  | divide => ['/']
  | add => ['+']
  | subtract => ['-']
  | squareRoot => ['s', 'q', 'u', 'a', 'r', 'e']
  | powerTwo => ['p', 'o', 'w', 'e', 'r', '2']
  | powerY => ['X', 'Y']
  | plusMinus => ['+', '-']

/-- The rank of the operator; a higher one binds closer. -/
def precedence : Operator → Nat
  | multiply | divide => 2
  | add | subtract => 1
  | squareRoot => 1
  | powerTwo => 3
  | powerY | plusMinus => 0

/-- The glyph of a symbol. -/
def glyph? (symbol : List Char) : Option (List Char) :=
  (all.find? fun operator => operator.symbol == symbol).map glyph

/-- The symbol of a glyph. -/
def symbol? (glyph : List Char) : Option (List Char) :=
  (all.find? fun operator => operator.glyph == glyph).map symbol

/-- The rank of the operator with a given symbol or glyph. -/
def precedence? (text : List Char) : Option Nat :=
  (all.find? fun operator => operator.symbol == text || operator.glyph == text).map precedence

/-- The text is the symbol or the glyph of an operator that joins two terms. -/
def isBinary (text : List Char) : Bool :=
  binary.any fun operator => operator.symbol == text || operator.glyph == text

/-- The first character of the symbol of a glyph, as a text; any other text, and the glyph of the
square root, is kept. -/
def canonicalText (text : List Char) : List Char :=
  if text = squareRoot.glyph then text
  else
    match symbol? text with
    | some symbol => symbol.take 1
    | none => text

/-- The character that a glyph of one character stands for in an equation. -/
def canonical (c : Char) : Char :=
  if c = '×' then '*' else if c = '÷' then '/' else if c = '±' then '+' else c

/-- The character joins two terms, as a symbol or as a glyph. -/
def isBinaryChar (c : Char) : Bool :=
  c == '*' || c == '/' || c == '+' || c == '-' || c == '×' || c == '÷'

/-- The equation with glyphs for its symbols. -/
def display (equation : List Char) : List Char :=
  replaceAll divide.symbol divide.glyph
    (replaceAll multiply.symbol multiply.glyph
      (replaceAll squareRoot.symbol squareRoot.glyph equation))

theorem singleton_beq (c d : Char) : (([d] : List Char) == [c]) = (c == d) := by
  rw [Bool.eq_iff_iff, beq_iff_eq, beq_iff_eq, List.cons.injEq]
  exact ⟨fun h => h.1.symm, fun h => ⟨h.symm, rfl⟩⟩

theorem canonicalText_singleton (c : Char) : canonicalText [c] = [canonical c] := by
  by_cases hm : c ∈ ['×', '÷', '+', '-', '√', '±']
  · simp only [List.mem_cons, List.not_mem_nil, or_false] at hm
    rcases hm with rfl | rfl | rfl | rfl | rfl | rfl <;> decide
  · simp only [List.mem_cons, List.not_mem_nil, or_false, not_or] at hm
    obtain ⟨h₁, h₂, h₃, h₄, h₅, h₆⟩ := hm
    have hs : symbol? [c] = none := by
      rw [symbol?, Option.map_eq_none_iff, List.find?_eq_none]
      intro operator _
      rw [beq_iff_eq]
      intro h
      cases operator <;> simp only [glyph, List.cons.injEq, reduceCtorEq, and_false, and_true] at h
      all_goals exact absurd h.symm (by assumption)
    rw [canonicalText, hs, canonical, if_neg h₁, if_neg h₂, if_neg h₆, if_neg]
    intro h
    exact h₅ (List.cons.inj h).1

theorem isBinary_singleton (c : Char) : isBinary [c] = isBinaryChar c := by
  simp only [isBinary, isBinaryChar, binary, symbol, glyph, List.any_cons, List.any_nil,
    Bool.or_false, singleton_beq]
  cases c == '*' <;> cases c == '/' <;> cases c == '+' <;> cases c == '-' <;> cases c == '×' <;>
    cases c == '÷' <;> rfl

end Operator

end Calculator
