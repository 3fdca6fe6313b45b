import Std.Data.HashSet.Basic
import ExprLang.Operator
import ExprLang.Value

/-!
# Expression trees

A tree is a literal (number, string, boolean), a symbol, or an operator applied to one operand
(a prefix) or two. Trees are built by the parser (`ExprLang.Tree.Parse`) or directly, and any
operator may stand in either arity; evaluation (`ExprLang.Tree.Eval`) decides what applies.

`Tree.render` writes a tree fully bracketed: every operator node in parentheses, a binary
operator between spaces, a prefix directly before its operand, numbers by `Number.text`, and
strings in double quotes with a backslash before every quote and backslash.

`Tree.symbols` lists the free symbols by walking the tree from left to right with two
accumulators, the set of names seen so far and the list written out (`Tree.collect`): a symbol
is written out and remembered the first time the walk meets it. `Tree.symbolOccurrences` is
the plain leaf-order list, with every repetition.
-/

namespace ExprLang

/-- An expression tree. -/
inductive Tree where
  | number (x : Float)
  | string (s : String)
  | boolean (b : Bool)
  | symbol (name : String)
  | unary (op : Operator) (arg : Tree)
  | binary (op : Operator) (left right : Tree)
deriving Repr, Inhabited, DecidableEq

namespace Tree

/-- A string literal: the text in double quotes, with a backslash before every double quote
and every backslash. -/
def quoteLiteral (s : String) : String :=
  "\"" ++ String.join (s.toList.map fun c =>
    if c = '"' ∨ c = '\\' then "\\" ++ c.toString else c.toString) ++ "\""

/-- The fully bracketed text of a tree. -/
def render : Tree → String
  | number x => Number.text x
  | string s => quoteLiteral s
  | boolean b => toString b
  | symbol name => name
  | unary op arg => "(" ++ op.spelling ++ arg.render ++ ")"
  | binary op l r => "(" ++ l.render ++ " " ++ op.spelling ++ " " ++ r.render ++ ")"

/-- The number of nodes on the longest path from the root to a leaf. -/
def depth : Tree → Nat
  | unary _ arg => arg.depth + 1
  | binary _ l r => max l.depth r.depth + 1
  | _ => 1

/-- Whether the tree is a literal: a number, a string or a boolean. -/
def isLeaf : Tree → Bool
  | number _ | string _ | boolean _ => true
  | _ => false

/-- The symbols of a tree in leaf order from left to right, repeated as often as they occur. -/
def symbolOccurrences : Tree → List String
  | symbol name => [name]
  | unary _ arg => arg.symbolOccurrences
  | binary _ l r => l.symbolOccurrences ++ r.symbolOccurrences
  | _ => []

/-- Walks the tree from left to right, the left operand before the right one, with the set of
names seen so far and the names written out so far. A symbol not seen yet is remembered and
written out; one seen already is passed over. -/
def collect : Tree → Std.HashSet String → List String → Std.HashSet String × List String
  | symbol name, seen, out =>
    if seen.contains name then (seen, out) else (seen.insert name, out ++ [name])
  | unary _ arg, seen, out => arg.collect seen out
  | binary _ l r, seen, out =>
    let (seen, out) := l.collect seen out
    r.collect seen out
  | _, seen, out => (seen, out)

/-- The free symbols in the order of their first appearance, each once: what the walk writes
out from an empty set and an empty list. -/
def symbols (t : Tree) : List String :=
  (t.collect ∅ []).2

/-- The literal that stands for a value. -/
def ofValue : Value → Tree
  | .number x => number x
  | .string s => string s
  | .boolean b => boolean b

end Tree

end ExprLang
