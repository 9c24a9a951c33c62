/-!
# Styles

The style texts of the window and of its settings dialog, in the dark and the light theme. The
light theme has no styles of its own; the colour of the equation tells whether it is marked.
-/

namespace Calculator

namespace Theme

/-- The style of the equation; a marked one has the colour of errors. -/
def equation (error : Bool) : List Char :=
  if error then "color: #8b0000;".toList else "color: #006400;".toList

/-- The style of the window. -/
def window (dark : Bool) : List Char :=
  if dark then "background-color: #121212;".toList else []

/-- The style of the result. -/
def result (dark : Bool) : List Char := if dark then "color: white;".toList else []

/-- The style of the buttons. -/
def button (dark : Bool) : List Char :=
  if dark then "background-color: #2e2e2e; color: white; font-weight: bold;".toList else []

/-- A rule of the style of the dialog, on a line of its own. -/
def dialogRule (selector properties : String) : List Char :=
  '\n' :: List.replicate 24 ' ' ++ selector.toList ++ ' ' :: '\x7b' :: properties.toList ++ ['\x7d']

/-- The style of the settings dialog. -/
def dialog (dark : Bool) : List Char :=
  if dark then
    dialogRule "QDialog" "background-color: #121212;" ++ dialogRule "QCheckBox" "color: white;" ++
      dialogRule "QDialogButtonBox QPushButton" "background-color: #666666;color: white;"
  else []

end Theme

end Calculator
