import ExprLang.Value
import ExprLang.Fault

/-!
# Parameters

A parameter is a named, loosely typed value that a caller hands over to be bound to a symbol:
undefined, a character, a signed 64-bit integer, a real (binary64), a text or a boolean. It
carries a free-form description and an enabled flag.

Binding turns a parameter into a value (`Param.toValue`): reals are numbers, integers become
the nearest number, characters and texts become strings. Booleans and undefined parameters
cannot be bound (`unsupportedParam`). In the other direction (`Param.ofValue`) booleans come
back as the reals `1` and `0`.
-/

namespace ExprLang

/-- A loosely typed parameter value. -/
inductive Param where
  | undefined
  | char (c : Char)
  | integer (i : Int64)
  | real (x : Float)
  | text (s : String)
  | boolean (b : Bool)
deriving Repr, Inhabited

namespace Param

/-- The name of the parameter's type. -/
def typeName : Param → String
  | undefined => "undefined"
  | char _ => "char"
  | integer _ => "integer"
  | real _ => "real"
  | text _ => "string"
  | boolean _ => "boolean"

/-- The text of a parameter value. -/
def display : Param → String
  | undefined => "<undefined>"
  | char c => c.toString
  | integer i => toString i.toInt
  | real x => Number.text x
  | text s => s
  | boolean b => toString b

/-- The value a parameter binds its symbol `name` to. -/
def toValue (name : String) : Param → Except Fault Value
  | real x => .ok (.number x)
  | integer i => .ok (.number (Float.ofInt i.toInt))
  | text s => .ok (.string s)
  | char c => .ok (.string c.toString)
  | boolean _ | undefined => .error (.unsupportedParam name)

/-- The parameter for a value: booleans become the reals `1` and `0`. -/
def ofValue : Value → Param
  | .number x => real x
  | .string s => text s
  | .boolean b => real (if b then 1 else 0)

end Param

/-- A parameter with its name, description and enabled flag. -/
structure Parameter where
  name : String
  description : String := ""
  status : Bool := true
  value : Param
deriving Repr, Inhabited

namespace Parameter

/-- `name = value`, followed by ` (description)` when there is a description. -/
def display (p : Parameter) : String :=
  p.name ++ " = " ++ p.value.display ++
    (if p.description.isEmpty then "" else " (" ++ p.description ++ ")")

end Parameter

end ExprLang
