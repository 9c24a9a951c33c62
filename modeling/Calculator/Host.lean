import Calculator.Expr.Basic

/-!
# What the machine allows

Texts are read and trees are walked by procedures that call one another, and values are read from
files and written to them. The machine bounds how many calls stand inside one another, how deep a
value is nested, and how long an integer is. A `Host` gives these bounds. What is said of the
calculator holds on every host; `Host.standard` is one that runs it.
-/

namespace Calculator

/-- The bounds of a machine. -/
class Host where
  /-- The calls inside one another that reading a text may take. The calls that each of them makes
  for a moment are taken off before, and these differ from text to text. -/
  frames : List Char → Nat
  /-- The levels of a tree that can be walked to evaluate it, and to print it if it is printed. -/
  levels : Expr → Nat
  /-- There are always so many calls, and so many levels. -/
  least : Nat
  least_le_frames : ∀ text, least ≤ frames text
  least_le_levels : ∀ tree, least ≤ levels tree
  /-- They do for a number with a sign. -/
  enough : 8 ≤ least
  /-- The digits that an integer of a file may have. -/
  digits : Nat
  /-- The lists and objects around a value in a file from which it can be read. -/
  readable : Nat
  /-- The lists and objects around a value that can be written to a file. -/
  writable : Nat
  /-- What can be read can be written. -/
  readable_le_writable : readable ≤ writable
  /-- What stands in a file when writing the text to it is broken off. -/
  cut : List Char → List Char
  cut_prefix : ∀ text, cut text <+: text

/-- A machine with room for about a thousand calls, some of which the program has made before. -/
instance Host.standard : Host where
  frames _ := 950
  levels _ := 950
  least := 950
  least_le_frames _ := Nat.le_refl _
  least_le_levels _ := Nat.le_refl _
  enough := by decide
  digits := 4300
  readable := 950
  writable := 950
  readable_le_writable := Nat.le_refl _
  cut _ := []
  cut_prefix _ := List.nil_prefix

end Calculator
