/-!
# Operators

The fifteen operators of the language. Each has a spelling in expression text (`+`, `&&`,
`<=`, …) and a name used in log lines (`Plus`, `LogicalAnd`, `CmpLe`, …). The grammar groups
them by level: `&&` and `||` are the logical operators, the six comparisons share one level,
and `+`, `-`, `!` are the only ones allowed as a prefix.
-/

namespace ExprLang

/-- An operator of the language. -/
inductive Operator where
  | plus
  | minus
  | times
  | divide
  | modulo
  | power
  | logicalAnd
  | logicalOr
  | logicalNot
  | eq
  | ne
  | gt
  | ge
  | lt
  | le
deriving Repr, DecidableEq, Inhabited

namespace Operator

/-- Every operator, in a fixed order. -/
def all : List Operator :=
  [plus, minus, times, divide, modulo, power, logicalAnd, logicalOr, logicalNot,
   eq, ne, gt, ge, lt, le]

/-- How the operator is written in expression text. -/
def spelling : Operator → String
  | plus => "+"
  | minus => "-"
  | times => "*"
  | divide => "/"
  | modulo => "%"
  | power => "^"
  | logicalAnd => "&&"
  | logicalOr => "||"
  | logicalNot => "!"
  | eq => "=="
  | ne => "!="
  | gt => ">"
  | ge => ">="
  | lt => "<"
  | le => "<="

/-- The operator with a given spelling. -/
def ofSpelling? (s : String) : Option Operator :=
  all.find? fun o => o.spelling == s

/-- The operator's name in log lines. -/
def logName : Operator → String
  | plus => "Plus"
  | minus => "Minus"
  | times => "Multiply"
  | divide => "Division"
  | modulo => "Modulo"
  | power => "Power"
  | logicalAnd => "LogicalAnd"
  | logicalOr => "LogicalOr"
  | logicalNot => "LogicalNot"
  | eq => "CmpEq"
  | ne => "CmpNe"
  | gt => "CmpGt"
  | ge => "CmpGe"
  | lt => "CmpLt"
  | le => "CmpLe"

/-- `&&` and `||`, which join whole expressions. -/
def isLogical : Operator → Bool
  | logicalAnd | logicalOr => true
  | _ => false

/-- The six comparisons. -/
def isComparison : Operator → Bool
  | eq | ne | gt | ge | lt | le => true
  | _ => false

/-- The operators allowed in front of an operand: `+`, `-` and `!`. -/
def isPrefix : Operator → Bool
  | plus | minus | logicalNot => true
  | _ => false

end Operator

end ExprLang
