import Calculator.Fault
import Calculator.Settings.Basic
import Calculator.Window.Theme

/-!
# The settings dialog

The dialog shows one box for each setting whose value is true or false, in the order of the
settings, with the description of the setting or else its name. It cannot be opened where such a
description is no text. Accepting the dialog saves the settings with the state of the boxes; if the
place cannot be written a message is shown and the dialog stays open. Rejecting it saves nothing.

* `Dialog.boxes_eq_ok_iff`: which dialogs can be opened, and their boxes.
-/

namespace Calculator

/-- The name and the value of a setting that is true or false. -/
def Json.boolean? : Units × Json → Option (Units × Bool)
  | (name, .bool value) => some (name, value)
  | _ => none

/-- A box of the dialog: the setting, the text beside the box, and its state. -/
structure Box where
  setting : Units
  caption : Units
  checked : Bool

/-- The text beside the box, as a value. -/
def Box.text (box : Box) : Json := .string box.caption

/-- How a dialog was left; one that stays open was not. -/
inductive Outcome where
  | accepted
  | rejected
  | stayed
  deriving DecidableEq

/-- Why a dialog cannot be opened. -/
inductive DialogFault where
  | unreadable (error : ReadError)
  /-- The description of the setting is no text. -/
  | undescribed (setting : Units)

/-- The settings dialog. -/
structure Dialog where
  settings : Json.Members
  boxes : List Box
  style : List Char
  /-- The titles and the texts of the messages that it has shown. -/
  messages : List (String × String) := []

namespace Dialog

/-- The title of the dialog. -/
def title : String := "Calculator Settings"

/-- The title and the text of the message about settings that cannot be saved. -/
def saveMessage : String × String := ("Error", Fault.explanation ['5', '0', '0', '1'])

/-- The text that describes a setting: its description, or else its name. Null stands for an empty
text, and no other value but a string can be a description. -/
def caption? (descriptions : Json.Members) (setting : Units) : Option Units :=
  match descriptions.lookup setting with
  | none => some setting
  | some (.string text) => some text
  | some .null => some []
  | some _ => none

/-- The boxes of settings with their states. -/
def boxes? (descriptions : Json.Members) : List (Units × Bool) → Except DialogFault (List Box)
  | [] => .ok []
  | (setting, checked) :: settings =>
    match caption? descriptions setting with
    | some caption =>
      (boxes? descriptions settings).map fun boxes => ⟨setting, caption, checked⟩ :: boxes
    | none => .error (.undescribed setting)

/-- The style for given settings. -/
def styleFor (settings : Json.Members) : List Char :=
  Theme.dialog (Settings.isOn settings Settings.darkMode)

/-- The dialog for given settings and descriptions. -/
def create (settings descriptions : Json.Members) : Except DialogFault Dialog := do
  let boxes ← boxes? descriptions (settings.filterMap Json.boolean?)
  return { settings, boxes, style := styleFor settings }

/-- The dialog with one box set, if there is a box for the setting. -/
def check (dialog : Dialog) (choice : Units × Bool) : Dialog :=
  { dialog with
    boxes := dialog.boxes.map fun box =>
      if box.setting = choice.1 then { box with checked := choice.2 } else box }

/-- The settings with the state of the boxes. -/
def chosen (dialog : Dialog) : Json.Members :=
  Json.overlay dialog.settings (dialog.boxes.map fun box => (box.setting, .bool box.checked))

/-- The dialog after a message that the settings cannot be saved. -/
def complain (dialog : Dialog) : Dialog :=
  { dialog with messages := dialog.messages ++ [saveMessage] }

theorem boxes_eq_ok_iff {descriptions : Json.Members} {settings : List (Units × Bool)} :
    (∃ boxes, boxes? descriptions settings = .ok boxes) ↔
      ∀ setting ∈ settings, (caption? descriptions setting.1).isSome = true := by
  induction settings with
  | nil => simp [boxes?]
  | cons setting settings ih =>
    obtain ⟨setting, checked⟩ := setting
    rw [List.forall_mem_cons, ← ih, boxes?]
    cases caption? descriptions setting with
    | none => simp
    | some caption => cases boxes? descriptions settings <;> simp [Except.map]

variable [Host]

/-- Opens the dialog with what stands at the places of the settings and of the descriptions. -/
def load (settings descriptions : Place) : Except DialogFault Dialog := do
  let settings ← (Settings.load settings).mapError .unreadable
  let descriptions ← descriptions.members?.mapError .unreadable
  create settings (descriptions.getD [])

/-- Accepts the dialog: it afterwards, how it was left, and what then stands at the place of the
settings. It stays open if saving raises a fault, and no message is shown then. -/
def accept (dialog : Dialog) (place : Place) : Dialog × Outcome × Place :=
  match Settings.save place dialog.chosen with
  | (place, .returned []) => (dialog.complain, .stayed, place)
  | (place, .returned _) => ({ dialog with style := styleFor dialog.chosen }, .accepted, place)
  | (place, .raised _) => (dialog, .stayed, place)

/-- Leaves the dialog with one of its two buttons. -/
def leave (dialog : Dialog) (accepting : Bool) (place : Place) : Dialog × Outcome × Place :=
  if accepting then dialog.accept place else (dialog, .rejected, place)

end Dialog

end Calculator
