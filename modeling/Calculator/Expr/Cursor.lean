import Calculator.Fault
import Calculator.Operator

/-!
# Reading an equation

A `Cursor` stands in an equation: it has the count of characters before it and the characters from
it on. The character at the cursor is the one for which a glyph stands; the text that is read
keeps its glyphs. A `Reading` moves the cursor and yields a value, or fails with a fault where the
cursor then stands, so that reading may go on from there.

* `Reading.bind_of_ok`, `Reading.bind_of_error`: readings follow one another until one fails.
-/

namespace Calculator

/-- A place in an equation. Past the end there is nothing left to read. -/
structure Cursor where
  /-- The count of characters before the cursor. -/
  position : Nat
  /-- The characters from the cursor on. -/
  rest : List Char
  deriving DecidableEq

namespace Cursor

/-- The cursor before the first character. -/
def start (text : List Char) : Cursor := ⟨0, text⟩

/-- The character at the cursor, for which its glyph stands; `none` at the end. -/
def current? (c : Cursor) : Option Char := c.rest.head?.map Operator.canonical

/-- The cursor after the next character; at the end its position still moves on. -/
def next (c : Cursor) : Cursor := ⟨c.position + 1, c.rest.tail⟩

/-- The characters from the cursor on that satisfy `p`. -/
def run (p : Char → Bool) (c : Cursor) : List Char := c.rest.takeWhile p

/-- The cursor after the characters that satisfy `p`. -/
def skip (p : Char → Bool) (c : Cursor) : Cursor :=
  ⟨c.position + (c.run p).length, c.rest.dropWhile p⟩

/-- The cursor after any spaces. -/
def skipSpaces (c : Cursor) : Cursor := c.skip (· == ' ')

theorem run_append_skip (p : Char → Bool) (c : Cursor) : c.run p ++ (c.skip p).rest = c.rest :=
  List.takeWhile_append_dropWhile

end Cursor

/-- A step of reading: a value or a fault, and the cursor after it. -/
def Reading (α : Type) : Type := Cursor → Except Fault α × Cursor

namespace Reading

variable {α β : Type}

/-- One reading after another; the first fault ends them. -/
def bind (m : Reading α) (f : α → Reading β) : Reading β := fun c =>
  match m c with
  | (.ok a, c) => f a c
  | (.error fault, c) => (.error fault, c)

instance : Monad Reading where
  pure a := fun c => (.ok a, c)
  bind := bind

/-- Fails where the cursor stands. -/
def fail (fault : Fault) : Reading α := fun c => (.error fault, c)

/-- The character at the cursor. -/
def current? : Reading (Option Char) := fun c => (.ok c.current?, c)

/-- The count of characters from the cursor on. -/
def remaining : Reading Nat := fun c => (.ok c.rest.length, c)

/-- Reads the characters that satisfy `p`. -/
def takeRun (p : Char → Bool) : Reading (List Char) := fun c => (.ok (c.run p), c.skip p)

/-- Reads the next character as it is written. -/
def takeOne : Reading (List Char) := fun c => (.ok (c.rest.take 1), c.next)

/-- Passes over any spaces, and then over the expected character if it is there; `none` expects
the end. -/
def eat (expected : Option Char) : Reading Bool := fun c =>
  if c.skipSpaces.current? = expected then (.ok true, c.skipSpaces.next)
  else (.ok false, c.skipSpaces)

/-- Passes over any spaces, and then over one of the expected characters if one is there. -/
def eatAny (expected : List Char) : Reading (Option Char) := fun c =>
  match c.skipSpaces.current? with
  | some found =>
    if found ∈ expected then (.ok (some found), c.skipSpaces.next) else (.ok none, c.skipSpaces)
  | none => (.ok none, c.skipSpaces)

theorem bind_of_ok {m : Reading α} {f : α → Reading β} {c d : Cursor} {a : α}
    (h : m c = (.ok a, d)) : (m >>= f) c = f a d := by
  show bind m f c = f a d
  rw [bind, h]

theorem bind_of_error {m : Reading α} {f : α → Reading β} {c d : Cursor} {fault : Fault}
    (h : m c = (.error fault, d)) : (m >>= f) c = (.error fault, d) := by
  show bind m f c = (.error fault, d)
  rw [bind, h]

end Reading

end Calculator
