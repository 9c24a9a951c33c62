import Calculator.Settings.Place

/-!
# Settings

The settings are the defaults with the members of the settings file over them, so the defaults
come first, and then what else the file holds. Their descriptions stand in a file of their own.
Saving gives back the settings that were saved, and no settings if the place cannot be written. It
does not return if writing is broken off.

* `Settings.save_eq`: the three ways in which saving can end.
-/

namespace Calculator

namespace Settings

/-- The name of a setting. -/
def name (text : String) : Units := unitsOfText text.toList

def darkMode : Units := name "darkmode"

def debug : Units := name "debug"

def shiftToCopy : Units := name "shift_to_copy"

def copyResult : Units := name "copy_result"

/-- The name under which all settings, or all descriptions, are asked for. -/
def everything : Units := name "all"

/-- How saving ends. -/
inductive Saved where
  /-- It gives back settings. -/
  | returned (settings : Json.Members)
  /-- It raises a fault. -/
  | raised (fault : Json.WriteFault)

/-- The settings that are given back. -/
def Saved.settings : Saved → Json.Members
  | returned settings => settings
  | raised _ => []

instance : Coe Saved Json.Members := ⟨Saved.settings⟩

/-- The settings without a file. -/
def defaults : Json.Members :=
  [(darkMode, .bool false), (debug, .bool false), (shiftToCopy, .bool true),
    (copyResult, .bool false)]

/-- All members as an object, or the value under a name; a name that is not there has zero. -/
def select (members : Json.Members) (name : Units) : Json :=
  if name = everything then .object members else (members.lookup name).getD (.integer 0)

/-- The setting is on: its value is `true`, or equal to one. -/
def isOn (settings : Json.Members) (name : Units) : Bool :=
  (settings.lookup name).any Json.isTrue

variable [Host]

/-- The settings with a given place for their file. -/
def load (place : Place) : Except ReadError Json.Members :=
  place.members?.map fun members => Json.overlay defaults (members.getD [])

/-- All settings, or the value of one. -/
def value (place : Place) (name : Units) : Except ReadError Json :=
  (load place).map fun settings => select settings name

/-- All descriptions, or one; without a file of descriptions an empty object. -/
def description (place : Place) (name : Units) : Except ReadError Json :=
  place.members?.map fun
    | some descriptions => select descriptions name
    | none => .object []

/-- Saves settings: what stands at the place afterwards, and how saving ends. -/
def save (place : Place) (settings : Json.Members) : Place × Saved :=
  (place.write settings,
    if place.isWritable then
      match Place.writeFault? settings with
      | none => .returned settings
      | some fault => .raised fault
    else .returned [])

end Settings

end Calculator
