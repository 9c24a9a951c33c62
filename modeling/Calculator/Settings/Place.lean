import Calculator.Host
import Calculator.Json.Reader

/-!
# Files of values

A `Place` is what stands at the path of a file. An object cannot be read from it where the path
cannot be read as text, and where the text goes beyond the limits of reading; a file that is
missing, or is not the text of an object, has none. A file can be written where there is one, or
where one can be made; elsewhere nothing is changed. Beyond the limits of writing it is broken off.

* `Place.write_of_not_writable`: where no file can be written, nothing is changed.
-/

namespace Calculator

-- Bytes are compared as in the core library, whatever other instance is in scope.
attribute [local instance (high + 1)] ByteArray.instDecidableEq

/-- What stands at the path of a file. -/
inductive Place where
  /-- Nothing, in a folder that exists. -/
  | missing
  | file (bytes : ByteArray)
  | directory
  /-- Nothing, and the folder does not exist. -/
  | noFolder
  /-- Nothing, and the folder of the path is itself a file. -/
  | underFile
  deriving DecidableEq

/-- Why a place cannot be read. -/
inductive ReadError where
  | isDirectory
  | folderIsFile
  | notUtf8
  | integerTooLong
  | nestedTooDeep
  deriving DecidableEq

namespace Place

/-- The text of the file; `none` if there is no file. -/
def text? : Place → Except ReadError (Option (List Char))
  | missing | noFolder => .ok none
  | directory => .error .isDirectory
  | underFile => .error .folderIsFile
  | file bytes =>
    match bytes.utf8Decode? with
    | some chars => .ok (some chars.toList)
    | none => .error .notUtf8

/-- A file can be written here. -/
def isWritable : Place → Bool
  | missing | file _ => true
  | _ => false

variable [Host]

/-- The limits of reading a file; the outermost object is around all values. -/
def limits : Json.Limits := ⟨Host.digits, Host.readable + 1⟩

/-- The members of the object that a text writes; `none` if it writes none. -/
def membersOf? (text : List Char) : Except ReadError (Option Json.Members) :=
  match Json.read limits text with
  | .ok (.object members) => .ok (some members)
  | .error .integerTooLong => .error .integerTooLong
  | .error .nestedTooDeep => .error .nestedTooDeep
  | _ => .ok none

/-- The members of the object in the file; `none` if there is no object. -/
def members? (place : Place) : Except ReadError (Option Json.Members) := do
  match ← place.text? with
  | some text => membersOf? text
  | none => return none

/-- The text of a file with these members. -/
def textOf (members : Json.Members) : List Char := (Json.object members).indented 0 []

/-- What stops members from being written to a file. -/
def writeFault? (members : Json.Members) : Option Json.WriteFault :=
  (Json.object members).writeFault? Host.digits (Host.writable + 1)

/-- What of the text of the members comes into a file: all of it, unless it is broken off. -/
def written (members : Json.Members) : List Char :=
  if writeFault? members = none then textOf members else Host.cut (textOf members)

/-- What stands at the place after members have been written to it. -/
def write (place : Place) (members : Json.Members) : Place :=
  if place.isWritable then file (String.ofList (written members)).toByteArray else place

theorem write_of_not_writable {place : Place} (h : place.isWritable = false)
    (members : Json.Members) : place.write members = place := by
  simp [write, h]

end Place

end Calculator
