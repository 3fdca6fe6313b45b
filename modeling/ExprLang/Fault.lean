import ExprLang.Operator
import ExprLang.Value

/-!
# Faults

Every way reading or evaluating an expression can fail, as a cause with its data. The wording
of each cause is in one place, `Fault.message`, and `Fault.phase?` says whether the fault
arose while reading the text into a tree, while evaluating a tree, or neither (no expression,
an unusable parameter).

A syntax fault quotes the *word* next to the place it was found (`before '2'`); when nothing
follows, the word is empty and the message says `the end` instead.
-/

namespace ExprLang

/-- The cause of a failed reading or evaluation. -/
inductive Fault where
  /-- The text is empty or white space only. -/
  | noExpression
  /-- The text does not follow the grammar: what was wrong, and the word after it. -/
  | malformed (message near : String)
  /-- A complete expression is followed by more text, starting with the word `near`. -/
  | trailing (near : String)
  /-- Brackets, `&&`/`||` chains and prefixes are nested deeper than the limit allows. -/
  | tooDeep (limit : Nat)
  /-- A symbol has no value. -/
  | unbound (name : String)
  /-- A prefix operator does not apply to its operand's kind. -/
  | unaryType (op : Operator) (operand : Kind)
  /-- A binary operator does not apply to its operands' kinds. -/
  | binaryType (op : Operator) (left right : Kind)
  | divideByZero
  | moduloByZero
  /-- A repeated string would be too large to hold. -/
  | repeatRefused
  /-- A parameter is boolean or undefined and cannot be bound to a symbol. -/
  | unsupportedParam (name : String)
deriving Repr, DecidableEq

/-- The two phases in which a fault can arise. -/
inductive Phase where
  | reading
  | evaluating
deriving Repr, DecidableEq

namespace Fault

/-- A quoted word, or `the end` when there is none. -/
def nearText (word : String) : String :=
  if word.isEmpty then "the end" else word

/-- The message of a fault. -/
def message : Fault → String
  | noExpression => "no expression is given"
  | malformed msg near => msg ++ " before '" ++ nearText near ++ "'"
  | trailing near =>
    "unprocessed components at the end, maybe there is more than one expression given (near '" ++
      nearText near ++ "')"
  | tooDeep limit => "expression nested deeper than " ++ toString limit ++ " levels"
  | unbound name => "unsolvable symbol `" ++ name ++ "`"
  | unaryType op k => "operator '" ++ op.spelling ++ "' cannot be applied to " ++ k.name
  | binaryType op l r =>
    "operator '" ++ op.spelling ++ "' cannot be applied to " ++ l.name ++ " and " ++ r.name
  | divideByZero => "divide by 0"
  | moduloByZero => "modulo by 0"
  | repeatRefused => "string repetition result is too large"
  | unsupportedParam name => "unrecognizable parameter type for `" ++ name ++ "`"

/-- The phase in which a fault arises, if it belongs to one. -/
def phase? : Fault → Option Phase
  | malformed .. | trailing _ | tooDeep _ => some .reading
  | unbound _ | unaryType .. | binaryType .. | divideByZero | moduloByZero | repeatRefused =>
    some .evaluating
  | noExpression | unsupportedParam _ => none

end Fault

end ExprLang
