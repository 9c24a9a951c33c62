import Calculator.Json.Basic
import Calculator.Number.Shortest
import Calculator.Text.Quoted

/-!
# Writing values

A value is written in one line, or over several lines with four spaces for each level; empty lists
and objects stay in one piece. Strings are written with visible ASCII characters: a quote, a
backslash and the common control characters have short escapes, any other unit of sixteen bits is
written by four hexadecimal digits. `Json.print` is the form in which settings are reported on the
console.

The length of an integer and the nesting of lists and objects have limits, as they have for reading.
-/

namespace Calculator

namespace Json

/-- Numbers of a file: powers of ten from -4 to 15 without an exponent, else an exponent of at
least two digits. -/
def fileNumbers : NumberStyle := ⟨-4, 15, 2, "Infinity".toList, ['N', 'a', 'N']⟩

/-- Numbers on the console. -/
def consoleNumbers : NumberStyle := ⟨-4, 15, 2, ['i', 'n', 'f'], ['n', 'a', 'n']⟩

/-- The short escapes: the letter after the backslash and the unit for which it stands. -/
def shortEscapes : List (Char × UInt16) :=
  [('"', 0x22), ('\\', 0x5c), ('b', 0x08), ('f', 0x0c), ('n', 0x0a), ('r', 0x0d), ('t', 0x09)]

/-- A unit as it stands between the quotes of a string. -/
def escaped (unit : UInt16) : List Char :=
  match shortEscapes.find? fun short => short.2 == unit with
  | some short => ['\\', short.1]
  | none =>
    if 0x20 ≤ unit && unit < 0x7f then [Char.ofNat unit.toNat]
    else '\\' :: 'u' :: hexDigits 4 unit.toNat

/-- A string between quotes. -/
def quotedString (units : Units) : List Char :=
  '"' :: (utf16OfUnits units).flatMap escaped ++ ['"']

/-- The digits of an integer, after its sign. -/
def integerText (value : Int) : List Char :=
  (if value < 0 then ['-'] else []) ++ Nat.toDigits 10 value.natAbs

/-- A value that is neither a list nor an object. -/
def scalarText : Json → List Char
  | null => "null".toList
  | bool true => "true".toList
  | bool false => "false".toList
  | integer value => integerText value
  | number value => fileNumbers.write value
  | string units => quotedString units
  | _ => []

mutual

/-- A value in one line. -/
def compact : Json → List Char
  | array items => '[' :: compactItems items ++ [']']
  | object members => '\x7b' :: compactMembers members ++ ['\x7d']
  | scalar => scalarText scalar

/-- The items of a list in one line. -/
def compactItems : List Json → List Char
  | [] => []
  | [item] => item.compact
  | item :: items => item.compact ++ ',' :: ' ' :: compactItems items

/-- The members of an object in one line. -/
def compactMembers : List (Units × Json) → List Char
  | [] => []
  | [(name, value)] => quotedString name ++ ':' :: ' ' :: value.compact
  | (name, value) :: members =>
    quotedString name ++ ':' :: ' ' :: value.compact ++ ',' :: ' ' :: compactMembers members

end

/-- The start of a line at a level. -/
def lineStart (level : Nat) : List Char := '\n' :: List.replicate (4 * level) ' '

mutual

/-- A value over several lines, the first at a given level, in front of what follows it. -/
def indented (level : Nat) : Json → List Char → List Char
  | array [], rest => '[' :: ']' :: rest
  | array items, rest => '[' :: indentedItems (level + 1) items (lineStart level ++ ']' :: rest)
  | object [], rest => '\x7b' :: '\x7d' :: rest
  | object members, rest =>
    '\x7b' :: indentedMembers (level + 1) members (lineStart level ++ '\x7d' :: rest)
  | scalar, rest => scalarText scalar ++ rest

/-- The items of a list, each on a line of its own, in front of what follows them. -/
def indentedItems (level : Nat) : List Json → List Char → List Char
  | [], rest => rest
  | [item], rest => lineStart level ++ item.indented level rest
  | item :: items, rest =>
    lineStart level ++ item.indented level (',' :: indentedItems level items rest)

/-- The members of an object, each on a line of its own, in front of what follows them. -/
def indentedMembers (level : Nat) : List (Units × Json) → List Char → List Char
  | [], rest => rest
  | [(name, value)], rest =>
    lineStart level ++ quotedString name ++ ':' :: ' ' :: value.indented level rest
  | (name, value) :: members, rest =>
    lineStart level ++ quotedString name ++ ':' :: ' ' ::
      value.indented level (',' :: indentedMembers level members rest)

end

/-- Why a value cannot be written. -/
inductive WriteFault where
  | integerTooLong
  | nestedTooDeep
  deriving DecidableEq

mutual

/-- What stops a value from being written with integers of at most so many digits, and with at most
so many lists and objects around a value: the first one that is beyond a limit. -/
def writeFault? (digits : Nat) : Nat → Json → Option WriteFault
  | _, integer value =>
    if digits < (Nat.toDigits 10 value.natAbs).length then some .integerTooLong else none
  | 0, array _ | 0, object _ => some .nestedTooDeep
  | nesting + 1, array items => itemsFault? digits nesting items
  | nesting + 1, object members => membersFault? digits nesting members
  | _, _ => none

/-- What stops the items of a list from being written. -/
def itemsFault? (digits nesting : Nat) : List Json → Option WriteFault
  | [] => none
  | item :: items => (item.writeFault? digits nesting).or (itemsFault? digits nesting items)

/-- What stops the members of an object from being written. -/
def membersFault? (digits nesting : Nat) : List (Units × Json) → Option WriteFault
  | [] => none
  | (_, value) :: members =>
    (value.writeFault? digits nesting).or (membersFault? digits nesting members)

end

/-- A string as the console shows it. -/
def consoleString (units : Units) : List Char := Quoted.ofCodes (codesOfUnits units)

mutual

/-- A value as the console shows it. -/
def print : Json → List Char
  | null => "None".toList
  | bool true => "True".toList
  | bool false => "False".toList
  | integer value => integerText value
  | number value => consoleNumbers.write value
  | string units => consoleString units
  | array items => '[' :: printItems items ++ [']']
  | object members => '\x7b' :: printMembers members ++ ['\x7d']

/-- The items of a list as the console shows them. -/
def printItems : List Json → List Char
  | [] => []
  | [item] => item.print
  | item :: items => item.print ++ ',' :: ' ' :: printItems items

/-- The members of an object as the console shows them. -/
def printMembers : List (Units × Json) → List Char
  | [] => []
  | [(name, value)] => consoleString name ++ ':' :: ' ' :: value.print
  | (name, value) :: members =>
    consoleString name ++ ':' :: ' ' :: value.print ++ ',' :: ' ' :: printMembers members

end

end Json

end Calculator
