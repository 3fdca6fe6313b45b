import ExprLang.Tree
import ExprLang.Fault
import ExprLang.Number.Whole

/-!
# Evaluating trees

`Tree.eval alloc env t` reduces a tree to a value, looking symbols up in `env` and reserving
the strings that repetition builds from `alloc`. Both operands of a
binary operator are evaluated, the left one first, before the operator is applied, `&&` and
`||` included; the first fault ends the evaluation.

Each operator applies to fixed kinds of operands, and to nothing else (`unaryType`,
`binaryType`):

| operator | operands | result |
|---|---|---|
| prefix `+`, `-` | number | the number, its negation |
| prefix `!` | boolean | its negation |
| `+` | two numbers; a number or string with a string | the sum; the texts joined |
| `-`, `^` | two numbers | difference, power |
| `*` | two numbers; a string and a number, either way | product; the string repeated |
| `/` | two numbers, the divisor not zero | quotient |
| `%` | two numbers | remainder of the 64-bit integer parts |
| `&&`, `\|\|` | two booleans | conjunction, disjunction |
| `==`, `!=` | two values of one kind | equality, inequality |
| `<`, `<=`, `>`, `>=` | two numbers or two strings | the order; strings by code points |

A number joined to a string is written by `Number.text`. Division refuses a zero divisor of
either sign. The remainder takes both operands to signed 64-bit integers (`Parts.toInt64`),
refuses a zero divisor after that, and takes the remainder of truncated division. A string is
repeated `Parts.toCount n` times. The repetition is refused when its size in bytes overflows
`countMax`, or when the allocator does not grant a reservation of that size: an allocator may
refuse any reservation, and it refuses every one of more than `isizeMax` bytes (`Allocator`).
-/

namespace ExprLang

/-- The largest size of a string in bytes, `2 ^ 63 - 1`. -/
def isizeMax : Nat := Nat.pow 2 63 - 1

/-- Where the string of a repetition is reserved: whether a reservation of so many bytes is
granted. An allocator may refuse any reservation, and never grants one of more than
`isizeMax` bytes. -/
structure Allocator where
  grants : Nat → Bool
  grants_le : ∀ n, grants n = true → n ≤ isizeMax

/-- An allocator that grants every reservation of at most `budget` bytes. -/
def Allocator.upTo (budget : Nat) (h : budget ≤ isizeMax) : Allocator where
  grants n := decide (n ≤ budget)
  grants_le _ hn := Nat.le_trans (of_decide_eq_true hn) h

/-- The text `s` written `n` times, built by doubling. -/
def replicateText (s : String) (n : Nat) : String :=
  if n = 0 then ""
  else
    let half := replicateText s (n / 2)
    if n % 2 = 0 then half ++ half else half ++ half ++ s
termination_by n
decreasing_by omega

/-- A string repeated as many times as a number counts (`Parts.toCount`): empty for an empty
string or a zero count; refused when the size of the result in bytes overflows `countMax` or
`alloc` does not grant it. -/
def repeatText (alloc : Allocator) (s : String) (n : Float) : Except Fault String :=
  let count := (Number.Parts.ofFloat n).toCount
  if s.isEmpty || count == 0 then .ok ""
  else if Number.countMax < s.utf8ByteSize * count then .error .repeatRefused
  else if alloc.grants (s.utf8ByteSize * count) then .ok (replicateText s count)
  else .error .repeatRefused

/-- The remainder of truncated division of the 64-bit integer parts of two numbers. -/
def remainder (a b : Float) : Except Fault Float :=
  let d := (Number.Parts.ofFloat b).toInt64
  if d = 0 then .error .moduloByZero
  else .ok (Float.ofInt ((Number.Parts.ofFloat a).toInt64.tmod d))

namespace Tree

/-- A prefix operator applied to a value. -/
def applyUnary (op : Operator) (v : Value) : Except Fault Value :=
  match op, v with
  | .plus, .number x => .ok (.number x)
  | .minus, .number x => .ok (.number (-x))
  | .logicalNot, .boolean b => .ok (.boolean (!b))
  | op, v => .error (.unaryType op v.kind)

/-- A binary operator applied to two values; a repeated string is reserved from `alloc`. -/
def applyBinary (alloc : Allocator) (op : Operator) (l r : Value) : Except Fault Value :=
  match op, l, r with
  | .plus, .number a, .number b => .ok (.number (a + b))
  | .plus, .number a, .string b => .ok (.string (Number.text a ++ b))
  | .plus, .string a, .number b => .ok (.string (a ++ Number.text b))
  | .plus, .string a, .string b => .ok (.string (a ++ b))
  | .minus, .number a, .number b => .ok (.number (a - b))
  | .times, .number a, .number b => .ok (.number (a * b))
  | .times, .number n, .string s => .string <$> repeatText alloc s n
  | .times, .string s, .number n => .string <$> repeatText alloc s n
  | .divide, .number a, .number b =>
    if (Number.Parts.ofFloat b).isZero then .error .divideByZero else .ok (.number (a / b))
  | .modulo, .number a, .number b => .number <$> remainder a b
  | .power, .number a, .number b => .ok (.number (Float.pow a b))
  | .logicalAnd, .boolean a, .boolean b => .ok (.boolean (a && b))
  | .logicalOr, .boolean a, .boolean b => .ok (.boolean (a || b))
  | .eq, .boolean a, .boolean b => .ok (.boolean (a == b))
  | .eq, .string a, .string b => .ok (.boolean (a == b))
  | .eq, .number a, .number b => .ok (.boolean (a == b))
  | .ne, .boolean a, .boolean b => .ok (.boolean (a != b))
  | .ne, .string a, .string b => .ok (.boolean (a != b))
  | .ne, .number a, .number b => .ok (.boolean (a != b))
  | .gt, .number a, .number b => .ok (.boolean (decide (b < a)))
  | .ge, .number a, .number b => .ok (.boolean (decide (b ≤ a)))
  | .lt, .number a, .number b => .ok (.boolean (decide (a < b)))
  | .le, .number a, .number b => .ok (.boolean (decide (a ≤ b)))
  | .gt, .string a, .string b => .ok (.boolean (decide (b < a)))
  | .ge, .string a, .string b => .ok (.boolean (decide (b ≤ a)))
  | .lt, .string a, .string b => .ok (.boolean (decide (a < b)))
  | .le, .string a, .string b => .ok (.boolean (decide (a ≤ b)))
  | op, l, r => .error (.binaryType op l.kind r.kind)

/-- Reduces a tree to a value, looking symbols up in `env` and reserving repeated strings from
`alloc`. -/
def eval (alloc : Allocator) (env : String → Option Value) : Tree → Except Fault Value
  | number x => .ok (.number x)
  | string s => .ok (.string s)
  | boolean b => .ok (.boolean b)
  | symbol name =>
    match env name with
    | some v => .ok v
    | none => .error (.unbound name)
  | unary op arg => arg.eval alloc env >>= applyUnary op
  | binary op l r =>
    l.eval alloc env >>= fun a => r.eval alloc env >>= fun b => applyBinary alloc op a b

end Tree

end ExprLang
