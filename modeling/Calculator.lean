import Calculator.Main
import Calculator.Proofs.Expr.Parse
import Calculator.Proofs.Expr.Glyph
import Calculator.Proofs.Expr.Failure
import Calculator.Proofs.Equation.Evaluation
import Calculator.Proofs.Equation.Validation
import Calculator.Proofs.Equation.Placement
import Calculator.Proofs.Equation.Typing
import Calculator.Proofs.Equation.Balance
import Calculator.Proofs.Equation.Spelling
import Calculator.Proofs.Equation.Integer
import Calculator.Proofs.Equation.Display
import Calculator.Proofs.Number.DecimalText
import Calculator.Proofs.Number.Nearest
import Calculator.Proofs.Number.Shown
import Calculator.Proofs.Number.Integer
import Calculator.Proofs.State.Run
import Calculator.Proofs.State.Label
import Calculator.Proofs.Window.Run
import Calculator.Proofs.State.History
import Calculator.Proofs.Equation.Result
import Calculator.Proofs.Equation.Failure
import Calculator.Proofs.Equation.Names
import Calculator.Proofs.Json.Grammar
import Calculator.Proofs.Json.Members
import Calculator.Proofs.Json.Scalar
import Calculator.Proofs.Window.Shown
import Calculator.Proofs.Json.Reading
import Calculator.Proofs.Json.NumberText
import Calculator.Proofs.Json.Writing
import Calculator.Proofs.Settings.Load
import Calculator.Proofs.Settings.Save
import Calculator.Proofs.Window.Dialog
import Calculator.Proofs.Expr.Composition
import Calculator.Proofs.Equation.Locality
import Calculator.Proofs.Window.Outside
import Calculator.Proofs.Window.Settings
import Calculator.Proofs.Window.Clipboard
import Calculator.Proofs.State.Total
import Calculator.Proofs.Expr.Lookahead
import Calculator.Proofs.Expr.Precedence
import Calculator.Proofs.Expr.Spacing
import Calculator.Proofs.Expr.Symbols
import Calculator.Proofs.Equation.Sign
import Calculator.Proofs.Equation.Overwriting
import Calculator.Proofs.Number.Rounded
import Calculator.Proofs.Number.Poles
import Calculator.Proofs.Expr.Progress
import Calculator.Proofs.Number.PlainText
