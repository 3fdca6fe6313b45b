import ExprLang.Operator
import ExprLang.Number.Text
import ExprLang.Text.Quoted

/-!
# Tokens

The scanner (`ExprLang.Token.Scan`) turns expression text into tokens one at a time. A token
is a literal, a symbol, an operator, a bracket, the end of the text, or an *invalid* token
that carries the message of what could not be scanned. The end and an invalid token are
*final*: nothing is scanned after them.

`Token.logText` is how log lines show a token (`Op(Plus)`, `Symbol("x")`, `Number(0.0)`).
-/

namespace ExprLang

/-- One token of expression text. -/
inductive Token where
  | number (x : Float)
  | string (s : String)
  | boolean (b : Bool)
  | symbol (name : String)
  | op (o : Operator)
  | openParen
  | closeParen
  | endOfText
  | invalid (message : String)
deriving Repr, Inhabited, DecidableEq

namespace Token

/-- Whether scanning stops after this token: at the end of the text or at an invalid token. -/
def isFinal : Token → Bool
  | endOfText | invalid _ => true
  | _ => false

/-- The token for a scanned word: the words `true` and `false` are booleans, any other word
is a symbol. -/
def ofWord (w : String) : Token :=
  if w = "true" then boolean true
  else if w = "false" then boolean false
  else symbol w

/-- How log lines show a token. -/
def logText : Token → String
  | number x => "Number(" ++ Number.diagnostic x ++ ")"
  | string s => "Str(" ++ Text.quote s ++ ")"
  | boolean b => "Bool(" ++ toString b ++ ")"
  | symbol n => "Symbol(" ++ Text.quote n ++ ")"
  | op o => "Op(" ++ o.logName ++ ")"
  | openParen => "LParen"
  | closeParen => "RParen"
  | endOfText => "End"
  | invalid m => "Error(" ++ Text.quote m ++ ")"

end Token

end ExprLang
