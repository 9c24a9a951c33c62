import Calculator.State
import Calculator.Window.Dialog

/-!
# The window

The window shows the state of the calculator and keeps the settings in force. Each event changes
the window and yields a `Response`: what it prints, what it hands to the clipboard, and which
messages and dialog it shows. A key is pressed on the state, `=` as well, after which the result is
copied if the settings ask for it.
-/

namespace Calculator

/-- The keys of a keyboard that are known by name. -/
inductive NamedKey where
  | enter
  | backspace
  | escape
  | shift
  | other
  deriving DecidableEq

/-- The key that a key of the keyboard means, whatever text it types. -/
def NamedKey.key? : NamedKey → Option Key
  | enter => some .equals
  | backspace => some .delete
  | escape => some .clear
  | shift | other => none

/-- The buttons of a window: one for each key in its grid, and one that opens the settings. -/
inductive Button where
  | key (key : Key)
  | settings
  deriving DecidableEq

/-- What happens to a window. -/
inductive Event where
  /-- A click on the button of a key. -/
  | click (key : Option Key)
  | keyPress (named : NamedKey) (text : List Char)
  | keyRelease (named : NamedKey)
  /-- The system reports the Shift key from now on as held or not. -/
  | systemShift (held : Bool)
  /-- The settings are opened, boxes are set, and a button leaves the dialog. -/
  | settings (choices : List (Units × Bool)) (accepting : Bool)

/-- Why an event has no effect. -/
inductive EventFault where
  | noSuchButton
  | unreadable (error : ReadError)
  deriving DecidableEq

/-- What a dialog showed last, and how it was left. -/
structure DialogReport where
  dialog : Dialog
  outcome : Outcome

/-- What an event does outside the window. -/
structure Response where
  /-- The window leaves the event to others. -/
  passedOn : Bool := false
  output : List Char := []
  /-- The text handed to the clipboard. -/
  offered : Option (List Char) := none
  /-- The texts that the clipboard took. -/
  copied : List (List Char) := []
  messages : List (String × String) := []
  dialog : Option DialogReport := none
  fault : Option EventFault := none
  /-- The setting whose description is no text, so that no dialog can be opened. -/
  undescribed : Option Units := none

/-- A window: the settings in force, the state, the texts and styles that it shows, and what it
meets outside. -/
structure Window where
  settings : Json.Members
  /-- The engine prints what it evaluates. -/
  debug : Bool
  state : State
  equationLabel : List Char
  resultLabel : List Char
  tooltip : List Char
  equationStyle : List Char
  resultStyle : List Char
  /-- The style of each button of the grid. -/
  buttonStyle : List Char
  /-- The style of the button that opens the settings. -/
  settingsButtonStyle : List Char
  style : List Char
  /-- The last event of the Shift key in the window was a press. -/
  shiftIsHeld : Bool
  /-- The system reports the Shift key as held. -/
  systemShift : Bool
  settingsPlace : Place
  descriptionsPlace : Place
  /-- What the clipboard complains about, if it takes nothing. -/
  clipboardFault : Option (List Char)

namespace Window

/-- The title of the window. -/
def title : String := "Calculator"

/-- The names of the labels of the result and of the equation. -/
def labelNames : List String := ["ResultLabel", "EquationLabel"]

/-- The name and the text of each button of the grid. -/
def buttonTexts : List (String × List Char) :=
  Key.buttons.map fun key => (key.name, key.label)

/-- The style of a button. -/
def styleOf (w : Window) : Button → List Char
  | .key _ => w.buttonStyle
  | .settings => w.settingsButtonStyle

/-- The window with its labels showing its state. -/
def render (w : Window) : Window :=
  { w with
    equationLabel := w.state.display
    resultLabel := w.state.result
    equationStyle := Theme.equation w.state.error }

/-- The dark theme is chosen. -/
def isDark (w : Window) : Bool := Settings.isOn w.settings Settings.darkMode

/-- The window in the theme of its settings, which the buttons of the grid share. -/
def applyTheme (w : Window) : Window :=
  { w with
    style := Theme.window w.isDark
    resultStyle := Theme.result w.isDark
    buttonStyle := Theme.button w.isDark }

/-- A new window with given settings. -/
def create (settings : Json.Members) (settingsPlace descriptionsPlace : Place)
    (clipboardFault : Option (List Char)) : Window :=
  let w : Window :=
    { settings, settingsPlace, descriptionsPlace, clipboardFault
      debug := false
      state := State.initial
      equationLabel := Equation.blank
      resultLabel := ['0']
      tooltip := []
      equationStyle := []
      resultStyle := []
      buttonStyle := []
      settingsButtonStyle := []
      style := []
      shiftIsHeld := false
      systemShift := false }
  w.applyTheme.render

/-- The Shift key is held, by the window or by the system. -/
def shiftHeld (w : Window) : Bool := w.shiftIsHeld || w.systemShift

/-- The settings ask for a copy of a result. -/
def asksForCopy (w : Window) : Bool :=
  Settings.isOn w.settings Settings.copyResult ||
    (Settings.isOn w.settings Settings.shiftToCopy && w.shiftHeld)

/-- What is printed when the clipboard takes nothing. -/
def clipboardNotice (fault : List Char) : List Char :=
  (Fault.explanation ['4', '0', '0', '1']).toList ++ ' ' :: fault ++ ['\n']

/-- What copying a text does. -/
def copy (w : Window) (text : List Char) : Response :=
  match w.clipboardFault with
  | some fault => { offered := some text, output := clipboardNotice fault }
  | none => { offered := some text, copied := [text] }

/-- What a window shows about a failure. -/
def tooltipFor (failure : Failure) : List Char :=
  failure.fault.describe ++ "\nDetails: ".toList ++ failure.fault.message

/-- Takes the settings over after the dialog. -/
def adopt (w : Window) (settings : Json.Members) : Window :=
  ({ w with settings, debug := Settings.isOn settings Settings.debug } : Window).applyTheme

/-- The key of an event of the keyboard. -/
def keyOf (named : NamedKey) (text : List Char) : Option Key := named.key?.or (Key.ofTyped? text)

variable [Host]

/-- A new window with what stands at the place of the settings. -/
def load (settingsPlace descriptionsPlace : Place) (clipboardFault : Option (List Char)) :
    Except ReadError Window := do
  return create (← Settings.load settingsPlace) settingsPlace descriptionsPlace clipboardFault

/-- What is printed while a key is pressed. -/
def traceOf (w : Window) (key : Key) : List Char := if w.debug then w.state.trace (some key) else []

/-- Evaluates the equation, and copies its result if the settings ask for it. -/
def evaluate (w : Window) : Window × Response :=
  let printed := w.traceOf .equals
  match w.state.solve with
  | (state, some failure) =>
    ({ w with state, tooltip := tooltipFor failure }, { output := printed })
  | (state, none) =>
    let response := if w.asksForCopy then w.copy state.result else {}
    ({ w with state, tooltip := [] }, { response with output := printed ++ response.output })

/-- Presses a key. -/
def press (w : Window) (key : Key) : Window × Response :=
  if key = .equals then
    let evaluated := w.evaluate
    (evaluated.1.render, evaluated.2)
  else
    (({ w with state := w.state.press key, tooltip := [] } : Window).render,
      { output := w.traceOf key })

/-- Opens the settings, sets boxes and leaves the dialog. -/
def configure (w : Window) (choices : List (Units × Bool)) (accepting : Bool) :
    Except DialogFault (Window × Response) := do
  let opened ← Dialog.load w.settingsPlace w.descriptionsPlace
  let checked := choices.foldl Dialog.check opened
  let (dialog, outcome, place) := checked.leave accepting w.settingsPlace
  let settings ← (Settings.load place).mapError .unreadable
  return (({ w with settingsPlace := place } : Window).adopt settings,
    { messages := dialog.messages, dialog := some ⟨dialog, outcome⟩ })

/-- What an event of a dialog that cannot be opened does. -/
def refused : DialogFault → Response
  | .unreadable error => { fault := some (.unreadable error) }
  | .undescribed setting => { undescribed := some setting }

/-- Handles an event. -/
def handle (w : Window) : Event → Window × Response
  | .click (some key) =>
    if key ∈ Key.buttons then w.press key else (w, { fault := some .noSuchButton })
  | .click none => (w, { fault := some .noSuchButton })
  | .keyPress .shift _ => ({ w with shiftIsHeld := true }, {})
  | .keyPress named text =>
    match keyOf named text with
    | some key => w.press key
    | none => (w, { passedOn := true })
  | .keyRelease named =>
    ({ w with shiftIsHeld := w.shiftIsHeld && named != .shift }, { passedOn := true })
  | .systemShift held => ({ w with systemShift := held }, {})
  | .settings choices accepting =>
    match w.configure choices accepting with
    | .ok configured => configured
    | .error fault => (w, refused fault)

end Window

end Calculator
