import Calculator.Json.Writer
import Calculator.Number.Numeral

/-!
# Reading values

A text is read from its start as one value with blanks around it. Beside the numbers of the
standard format there are `NaN`, `Infinity` and `-Infinity`; a number without point and exponent is
an integer. A string holds no raw control character, and the surrogate pairs in it are joined. Of
members with one name the last value counts, in the place of the first.

The length of an integer and the nesting of lists and objects have limits. Reading stops with the
first fault that it meets: what comes after an integer that is too long is not looked at.
-/

namespace Calculator

namespace Json

/-- What a text may hold. -/
structure Limits where
  /-- The greatest count of digits of an integer. -/
  digits : Nat
  /-- The greatest count of lists and objects around a value. -/
  nesting : Nat

/-- Why a text cannot be read as a value. -/
inductive ReadFault where
  | malformed
  | integerTooLong
  | nestedTooDeep
  deriving DecidableEq

namespace Reader

/-- The character may stand between the parts of a text. -/
def isBlank (c : Char) : Bool := c == ' ' || c == '\t' || c == '\n' || c == '\r'

/-- The text after any blanks. -/
def skipBlanks (text : List Char) : List Char := text.dropWhile isBlank

/-- The text after a word with which it starts. -/
def after? (word text : List Char) : Option (List Char) :=
  if word.isPrefixOf text then some (text.drop word.length) else none

/-- The value of a hexadecimal digit. -/
def hexDigit? (c : Char) : Option Nat :=
  if c.isDigit then some (c.toNat - '0'.toNat)
  else if 'a' ≤ c ∧ c ≤ 'f' then some (c.toNat - 'a'.toNat + 10)
  else if 'A' ≤ c ∧ c ≤ 'F' then some (c.toNat - 'A'.toNat + 10)
  else none

/-- The unit that four hexadecimal digits write. -/
def hexUnit? (a b c d : Char) : Option UInt16 := do
  return UInt16.ofNat (((← hexDigit? a) * 16 + (← hexDigit? b)) * 256 +
    ((← hexDigit? c) * 16 + (← hexDigit? d)))

/-- The unit for which the letter after a backslash stands; a slash stands for itself. -/
def shortEscape? (c : Char) : Option UInt16 := (('/', 0x2f) :: shortEscapes).lookup c

/-- Reads a string from after its first quote on, in units of sixteen bits. -/
def string : List Char → Option (Utf16 × List Char)
  | [] => none
  | '"' :: rest => some ([], rest)
  | '\\' :: 'u' :: a :: b :: c :: d :: rest => do
    let unit ← hexUnit? a b c d
    let (units, rest) ← string rest
    return (unit :: units, rest)
  | '\\' :: c :: rest => do
    let unit ← shortEscape? c
    let (units, rest) ← string rest
    return (unit :: units, rest)
  | c :: rest => do
    guard (0x20 ≤ c.toNat)
    let (units, rest) ← string rest
    return (utf16OfCode (codeOfChar c) ++ units, rest)

/-- Reads the digits of a whole number without superfluous zeros. -/
def wholeDigits (text : List Char) : Option (List Char × List Char) :=
  match text with
  | '0' :: rest => some (['0'], rest)
  | _ =>
    if text.takeWhile Char.isDigit = [] then none
    else some (text.takeWhile Char.isDigit, text.dropWhile Char.isDigit)

/-- Reads a point and digits, if they follow. -/
def fraction? (text : List Char) : Option (List Char × List Char) := do
  let rest ← after? ['.'] text
  guard (rest.takeWhile Char.isDigit ≠ [])
  return (rest.takeWhile Char.isDigit, rest.dropWhile Char.isDigit)

/-- Reads the sign of an exponent. -/
def exponentSign (text : List Char) : Bool × List Char :=
  match text with
  | '-' :: rest => (true, rest)
  | '+' :: rest => (false, rest)
  | _ => (false, text)

/-- Reads an exponent, if one follows. -/
def exponent? (text : List Char) : Option (Int × List Char) := do
  let rest ← (after? ['e'] text).or (after? ['E'] text)
  let (negative, rest) := exponentSign rest
  guard (rest.takeWhile Char.isDigit ≠ [])
  let size : Int := Nat.ofDigitChars 10 (rest.takeWhile Char.isDigit) 0
  return (if negative then -size else size, rest.dropWhile Char.isDigit)

/-- Reads from the start of a text: what it found and the rest of the text, or a fault. -/
abbrev Step (α : Type) : Type := List Char → Except ReadFault (α × List Char)

/-- What has been read; it is malformed if nothing has. -/
def found {α : Type} : Option α → Except ReadFault α
  | some a => .ok a
  | none => .error .malformed

/-- The integer with given digits, if they are not too many. -/
def integerOf (digits : Nat) (negative : Bool) (whole : List Char) : Except ReadFault Json :=
  let size : Int := Nat.ofDigitChars 10 whole 0
  if digits < whole.length then .error .integerTooLong
  else .ok (integer (if negative then -size else size))

/-- Reads a number without its sign: an integer, unless a fraction or an exponent follows. -/
def unsigned (digits : Nat) (negative : Bool) : Step Json := fun text => do
  let (whole, rest) ← found (wholeDigits text)
  let fraction := fraction? rest
  let (fractionDigits, rest) := fraction.getD ([], rest)
  let exponent := exponent? rest
  let (power, rest) := exponent.getD (0, rest)
  if fraction.isNone && exponent.isNone then
    return (← integerOf digits negative whole, rest)
  else
    let coefficient := Nat.ofDigitChars 10 (whole ++ fractionDigits) 0
    return (number (.ofDecimal negative coefficient (power - fractionDigits.length)), rest)

/-- The values that are words. -/
def words : List (List Char × Json) :=
  [("null".toList, null), ("true".toList, bool true), ("false".toList, bool false),
    ("NaN".toList, number .nan), ("Infinity".toList, number (.infinity false)),
    ("-Infinity".toList, number (.infinity true))]

/-- Reads a word. -/
def word? (text : List Char) : Option (Json × List Char) :=
  words.findSome? fun word => (after? word.1 text).map fun rest => (word.2, rest)

/-- Reads a value that is no list and no object. -/
def scalar (digits : Nat) : Step Json := fun text =>
  match word? text with
  | some result => .ok result
  | none =>
    match text with
    | '"' :: rest => do
      let (units, rest) ← found (string rest)
      return (Json.string (unitsOfUtf16 units), rest)
    | '-' :: rest => unsigned digits true rest
    | _ => unsigned digits false text

/-- Reads the quoted name of a member and the colon after it. -/
def memberName (text : List Char) : Option (Units × List Char) := do
  let rest ← after? ['"'] (skipBlanks text)
  let (units, rest) ← string rest
  let rest ← after? [':'] (skipBlanks rest)
  return (unitsOfUtf16 units, rest)

/-- Reads the items of a list and its closing bracket, given how to read a value. The count bounds
the items. -/
def items (value : Step Json) : Nat → Step (List Json)
  | 0, _ => .error .malformed
  | count + 1, text => do
    let (item, rest) ← value text
    match skipBlanks rest with
    | ',' :: rest =>
      let (more, rest) ← items value count rest
      return (item :: more, rest)
    | ']' :: rest => return ([item], rest)
    | _ => throw .malformed

/-- Reads the members of an object and its closing brace, given how to read a value. The count
bounds the members. -/
def members (value : Step Json) : Nat → Step Members
  | 0, _ => .error .malformed
  | count + 1, text => do
    let (name, rest) ← found (memberName text)
    let (content, rest) ← value rest
    match skipBlanks rest with
    | ',' :: rest =>
      let (more, rest) ← members value count rest
      return ((name, content) :: more, rest)
    | '\x7d' :: rest => return ([(name, content)], rest)
    | _ => throw .malformed

/-- Reads a list from after its opening bracket on. -/
def listItems (value : Step Json) : Step (List Json) := fun text =>
  match skipBlanks text with
  | ']' :: rest => .ok ([], rest)
  | _ => items value (text.length + 1) text

/-- Reads an object from after its opening brace on. -/
def objectMembers (value : Step Json) : Step Members := fun text =>
  match skipBlanks text with
  | '\x7d' :: rest => .ok ([], rest)
  | _ => members value (text.length + 1) text

/-- Reads a value after any blanks, with a greatest count of digits, and of lists and objects
inside one another. -/
def value (digits : Nat) : Nat → Step Json
  | 0, text =>
    match skipBlanks text with
    | '[' :: _ | '\x7b' :: _ => .error .nestedTooDeep
    | text => scalar digits text
  | nesting + 1, text =>
    match skipBlanks text with
    | '[' :: rest => do
      let (items, rest) ← listItems (value digits nesting) rest
      return (array items, rest)
    | '\x7b' :: rest => do
      let (members, rest) ← objectMembers (value digits nesting) rest
      return (object (overlay [] members), rest)
    | text => scalar digits text

end Reader

/-- The value that a whole text writes, within given limits. -/
def read (limits : Limits) (text : List Char) : Except ReadFault Json := do
  let (value, rest) ← Reader.value limits.digits limits.nesting text
  if Reader.skipBlanks rest = [] then return value
  else throw .malformed

end Json

end Calculator
