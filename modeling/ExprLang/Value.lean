import ExprLang.Number.Text
import ExprLang.Text.Quoted

/-!
# Values

A value is what a symbol is bound to and what evaluation returns: a number (binary64), a
string or a boolean. Its *kind* names it in type errors (`number`, `string`, `boolean`), its
text is what the language shows (`Value.text`: numbers by `Number.text`, strings as they are,
booleans as `true` and `false`), and `Value.logText` is how log lines show it.
-/

namespace ExprLang

/-- The three kinds of value, named in type errors. -/
inductive Kind where
  | number
  | string
  | boolean
deriving Repr, DecidableEq

/-- The name of a kind in messages. -/
def Kind.name : Kind → String
  | .number => "number"
  | .string => "string"
  | .boolean => "boolean"

/-- A fully reduced value. -/
inductive Value where
  | number (x : Float)
  | string (s : String)
  | boolean (b : Bool)
deriving Repr, Inhabited

namespace Value

/-- The kind of a value. -/
def kind : Value → Kind
  | number _ => .number
  | string _ => .string
  | boolean _ => .boolean

/-- The text of a value wherever the language shows one. -/
def text : Value → String
  | number x => Number.text x
  | string s => s
  | boolean b => toString b

/-- How log lines show a value: the kind's tag with the payload, as in `Number(2.0)`,
`String("a")` and `Boolean(true)`. -/
def logText : Value → String
  | number x => "Number(" ++ Number.diagnostic x ++ ")"
  | string s => "String(" ++ Text.quote s ++ ")"
  | boolean b => "Boolean(" ++ toString b ++ ")"

/-- The number held by a value, if it is one. -/
def asNumber? : Value → Option Float
  | number x => some x
  | _ => none

/-- The string held by a value, if it is one. -/
def asString? : Value → Option String
  | string s => some s
  | _ => none

/-- The boolean held by a value, if it is one. -/
def asBool? : Value → Option Bool
  | boolean b => some b
  | _ => none

end Value

end ExprLang
