import Calculator.Installation
import Calculator.Window.Basic

/-!
# The command line

Checks that the program is complete, reports its settings if debugging is on, and then presses the
key of each line of standard input and prints what the window shows. The window itself, and all
that it decides, is in `Window.Basic`.
-/

namespace Calculator

/-- The folder of the program. -/
def programFolder : String := "desktop_calculator"

/-- What stands at the path of a file of the program. -/
def placeOf (file : String) : IO Place := do
  try
    return .file (← IO.FS.readBinFile (programFolder ++ "/" ++ file))
  catch
    | .noFileOrDirectory .. => return .missing
    | _ => return .directory

/-- The file of the program is there. -/
def isPresent (file : String) : IO Bool := do return (← placeOf file) != .missing

/-- The lines that a window shows. -/
def linesOf (w : Window) : List Char :=
  w.resultLabel ++ '\n' :: w.equationLabel ++ '\n' ::
    if w.tooltip = [] then [] else w.tooltip ++ ['\n']

/-- Presses the key of each line of the input. -/
partial def pressLines (input : IO.FS.Stream) (w : Window) : IO Unit := do
  let line ← input.getLine
  unless line.isEmpty do
    let token := line.toList.filter fun c => c != '\n' && c != '\r'
    let (w, response) := w.handle (.keyPress .other token)
    IO.print (String.ofList (response.output ++ linesOf w))
    pressLines input w

end Calculator

open Calculator in
/-- Runs the calculator on standard input. -/
def main : IO UInt32 := do
  let (code, report) := Installation.check (← Installation.required.filterM isPresent)
  IO.print report
  match code with
  | some code => return code.toUInt32
  | none =>
    let settings ← placeOf "config.json"
    let descriptions ← placeOf "ui_strings.json"
    match Installation.start settings, Window.load settings descriptions none with
    | .ok greeting, .ok w =>
      IO.print (String.ofList greeting)
      pressLines (← IO.getStdin) (w.adopt w.settings)
      return 0
    | _, _ =>
      IO.eprintln "The settings cannot be read."
      return 1
