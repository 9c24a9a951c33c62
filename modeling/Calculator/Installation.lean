import Calculator.Settings.Basic

/-!
# Starting the program

The program starts only if all its files are in their folder; it names those that are missing. With
debugging on it reports the settings that it has loaded.
-/

namespace Calculator

namespace Installation

/-- The files that must be in the folder of the program. -/
def required : List String :=
  ["UI.py", "EquationBuilder.py", "MathEngine.py", "ScientificEngine.py", "Operators.py",
    "config_manager.py", "config.json", "ui_strings.json"]

/-- The required files that are not among those present. -/
def missing (present : List String) : List String :=
  required.filter fun file => !present.contains file

/-- What is printed about missing files. -/
def report (files : List String) : String :=
  files.foldl (fun text file => text ++ "- " ++ file ++ "\n")
    "Error: The following files are missing or in the wrong location:\n"

/-- Checks the files that are present: the exit code if the program cannot start, and what is
printed. -/
def check (present : List String) : Option Nat × String :=
  if missing present = [] then (none, "") else (some 1, report (missing present))

/-- The settings file with which the program is installed. -/
def shippedSettings : String :=
  "\x7b\n    \"darkmode\": false,\n    \"debug\": false,\n    \"shift_to_copy\": true,\n" ++
    "    \"copy_result\": false\n\x7d\n"

/-- The descriptions with which the program is installed. -/
def shippedDescriptions : String :=
  "\x7b\n    \"darkmode\": \"Darkmode\",\n" ++
    "    \"debug\": \"Print debug output to the console\",\n" ++
    "    \"shift_to_copy\": \"Shift + '=' copies the result\",\n" ++
    "    \"copy_result\": \"Copy every result to the clipboard\"\n\x7d\n"

/-- What the program reports about the settings that it has loaded. -/
def greeting (settings : Json.Members) : List Char :=
  if Settings.isOn settings Settings.debug then
    "Config loaded: ".toList ++ (Json.object settings).print ++ ['\n']
  else []

variable [Host]

/-- Starts the program with what stands at the place of the settings: what is printed. -/
def start (settings : Place) : Except ReadError (List Char) :=
  (Settings.load settings).map greeting

end Installation

end Calculator
