/-!
# Strings of code points

The strings of a settings file may hold surrogates that stand alone, so they are lists of code
points and not texts. A file writes them in units of sixteen bits: a code point that does not fit
into one is a pair of surrogates, and reading joins each first surrogate with a second one right
after it. So a string in which such two stand side by side is read back as another string.
-/

namespace Calculator

/-- A code point; it may be a surrogate. -/
abbrev CodePoint := Fin 0x110000

/-- A string, with code points as its units. -/
abbrev Units := List CodePoint

-- Without this, how membership among names is decided depends on what else is imported.
instance : LawfulBEq CodePoint := @instLawfulBEq _ (instDecidableEqFin _)

theorem toNat_char_lt (c : Char) : c.toNat < 0x110000 := by
  rcases c.valid with h | ⟨-, h⟩
  · exact Nat.lt_trans h (by decide)
  · exact h

/-- The code point of a character. -/
def codeOfChar (c : Char) : CodePoint := ⟨c.toNat, toNat_char_lt c⟩

/-- The code points of a text. -/
def unitsOfText (text : List Char) : Units := text.map codeOfChar

/-- The code points of a string, as numbers. -/
def codesOfUnits (units : Units) : List Nat := units.map Fin.val

/-- The code point is the first of a surrogate pair. -/
def isHighSurrogate (code : Nat) : Bool := 0xd800 ≤ code && code < 0xdc00

/-- The code point is the second of a surrogate pair. -/
def isLowSurrogate (code : Nat) : Bool := 0xdc00 ≤ code && code < 0xe000

/-! ## Units of sixteen bits -/

/-- A string in units of sixteen bits. -/
abbrev Utf16 := List UInt16

/-- A code point in units of sixteen bits. -/
def utf16OfCode (code : CodePoint) : Utf16 :=
  if code.val < 0x10000 then [UInt16.ofNat code.val]
  else
    [UInt16.ofNat (0xd800 + (code.val - 0x10000) / 0x400),
      UInt16.ofNat (0xdc00 + (code.val - 0x10000) % 0x400)]

/-- A string in units of sixteen bits. -/
def utf16OfUnits (units : Units) : Utf16 := units.flatMap utf16OfCode

/-- The code point of a unit that stands alone. -/
def codeOfUnit (unit : UInt16) : CodePoint := ⟨unit.toNat, Nat.lt_trans unit.toNat_lt (by decide)⟩

/-- The code point of a surrogate pair. -/
def codeOfPair (high low : UInt16) : CodePoint :=
  Fin.ofNat _ (0x10000 + (high.toNat - 0xd800) * 0x400 + (low.toNat - 0xdc00))

/-- The string that units of sixteen bits write; a surrogate without its partner is a code point of
its own. -/
def unitsOfUtf16 : Utf16 → Units
  | [] => []
  | [unit] => [codeOfUnit unit]
  | high :: low :: rest =>
    if isHighSurrogate high.toNat && isLowSurrogate low.toNat then
      codeOfPair high low :: unitsOfUtf16 rest
    else codeOfUnit high :: unitsOfUtf16 (low :: rest)

end Calculator
