import ExprLang.Number.Parts
import ExprLang.Number.Shortest
import ExprLang.Number.Text
import ExprLang.Number.Read
import ExprLang.Number.Whole
import ExprLang.Text.Blank
import ExprLang.Text.Ranges
import ExprLang.Text.Extending
import ExprLang.Text.Invisible
import ExprLang.Text.Quoted
import ExprLang.Operator
import ExprLang.Value
import ExprLang.Fault
import ExprLang.Token
import ExprLang.Token.Scan
import ExprLang.Token.Lexeme
import ExprLang.Lexer
import ExprLang.Tree
import ExprLang.Tree.Parse
import ExprLang.Tree.Eval
import ExprLang.Param
import ExprLang.Params
import ExprLang.Log
import ExprLang.Expression
import ExprLang.Cli.Args
import ExprLang.Cli.Session
import ExprLang.Proofs.Grammar
import ExprLang.Proofs.Levels
import ExprLang.Proofs.Reading
import ExprLang.Proofs.Printing
import ExprLang.Proofs.Typing
import ExprLang.Proofs.Nesting
import ExprLang.Proofs.Bindings
import ExprLang.Proofs.Status
import ExprLang.Proofs.Names
import ExprLang.Proofs.ExitCodes
import ExprLang.Proofs.Cursor
import ExprLang.Proofs.Symbols
import ExprLang.Proofs.WholeParts
import ExprLang.Proofs.Rounding
import ExprLang.Proofs.Binary64
import ExprLang.Proofs.ShortestDigits
import ExprLang.Proofs.DecimalReading
import ExprLang.Proofs.NumberText
import ExprLang.Proofs.Literals
import ExprLang.Proofs.Blank
import ExprLang.Proofs.Edits
import ExprLang.Proofs.ParamEvaluation
import ExprLang.Proofs.Repetition
import ExprLang.Proofs.Brackets
import ExprLang.Proofs.Counter
import ExprLang.Proofs.ByteCursor
