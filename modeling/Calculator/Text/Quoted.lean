import Calculator.Text.Printable
import Calculator.Text.Units

/-!
# Quoted text

Text is shown between single quotes, or between double quotes if it holds a single quote and no
double one. A backslash and the quote that encloses the text are escaped, and so is each character
that cannot be printed: line feed, carriage return and tabulator by a letter, any other by the
hexadecimal digits of its code point.
-/

namespace Calculator

/-- The lowercase hexadecimal digits of a number, at least `width` of them. -/
def hexDigits (width n : Nat) : List Char :=
  let digits := Nat.toDigits 16 n
  List.replicate (width - digits.length) '0' ++ digits

namespace Quoted

/-- A code point by its number, with the shortest of the three escapes that holds it. -/
def numbered (code : Nat) : List Char :=
  if code < 0x100 then '\\' :: 'x' :: hexDigits 2 code
  else if code < 0x10000 then '\\' :: 'u' :: hexDigits 4 code
  else '\\' :: 'U' :: hexDigits 8 code

/-- A code point as it stands between two quotes. -/
def escaped (quote : Char) (code : Nat) : List Char :=
  if code = quote.toNat ∨ code = '\\'.toNat then ['\\', Char.ofNat code]
  else if code = '\n'.toNat then ['\\', 'n']
  else if code = '\r'.toNat then ['\\', 'r']
  else if code = '\t'.toNat then ['\\', 't']
  else if isPrintable code then [Char.ofNat code]
  else numbered code

/-- The quote that encloses a text. -/
def quoteFor (codes : List Nat) : Char :=
  if codes.contains '\''.toNat && !codes.contains '"'.toNat then '"' else '\''

/-- The quoted text of a list of code points. -/
def ofCodes (codes : List Nat) : List Char :=
  let quote := quoteFor codes
  quote :: codes.flatMap (escaped quote) ++ [quote]

end Quoted

/-- The quoted form of a text. -/
def quoted (text : List Char) : List Char := Quoted.ofCodes (text.map Char.toNat)

end Calculator
