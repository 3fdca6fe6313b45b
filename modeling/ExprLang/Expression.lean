import ExprLang.Log
import ExprLang.Tree.Eval
import ExprLang.Params
import ExprLang.Text.Blank

/-!
# Expressions

An `Expression` reads a text once and is then evaluated any number of times. It remembers
the outcome of its latest operation: its tree and free symbols after a successful reading,
and the fault of the latest reading or evaluation, if any.

* `parse` first forgets the tree and the symbols. A text of white space alone
  (`Text.isWhiteSpace`, all of Unicode) is no expression; any other text is read whole
  (`Tree.readAll`) with the expression's nesting limit.
* `eval` without a tree gives the remembered fault (or `noExpression`); with a tree it
  evaluates and remembers the evaluation's fault, or that there is none.
* `evalParams` binds a parameter list first: the first parameter that cannot be bound is a
  fault before anything is evaluated.

Invariant: there are symbols only when there is a tree, and then they are the tree's symbols;
a successful reading leaves no fault.
-/

namespace ExprLang

/-- The nesting limit of an expression unless another is chosen. -/
def defaultLimit : Nat := 128

/-- A text read once for many evaluations, with the outcome of its latest operation. -/
structure Expression where
  tree : Option Tree := none
  symbols : List String := []
  fault : Option Fault := some .noExpression
  limit : Nat := defaultLimit
deriving Inhabited

namespace Expression

/-- An expression with nothing to evaluate. -/
def empty : Expression := {}

/-- Reads `src` in place of the current tree. -/
def parse (e : Expression) (src : String) : Logged Expression :=
  let e := { e with tree := none, symbols := [] }
  if src.all Text.isWhiteSpace then ⟨{ e with fault := some .noExpression }, []⟩
  else
    let ls := Lexeme.ofText src
    let r := Tree.readAll e.limit ls
    match r.result with
    | .ok t => ⟨{ e with tree := some t, symbols := t.symbols, fault := none }, r.log ls⟩
    | .error f =>
      ⟨{ e with fault := some f },
        r.log ls ++ [⟨.debug, "failed to parse " ++ Text.quote src ++ ": " ++ f.message⟩]⟩

/-- A new expression for `src` with the nesting limit `limit`. -/
def ofText (src : String) (limit : Nat := defaultLimit) : Logged Expression :=
  parse { limit } src

/-- The outcome of the latest operation. -/
def status (e : Expression) : Except Fault Unit :=
  match e.fault with
  | some f => .error f
  | none => .ok ()

/-- Whether the latest operation succeeded. -/
def isOk (e : Expression) : Bool :=
  e.fault.isNone

/-- The message of the latest fault, or `no error`. -/
def message (e : Expression) : String :=
  match e.fault with
  | some f => f.message
  | none => "no error"

/-- A new expression for `src` with the default limit, if it reads without a fault. -/
def ofString? (src : String) : Except Fault Expression :=
  let e := (ofText src).value
  match e.fault with
  | some f => .error f
  | none => .ok e

/-- The lines an evaluation of `t` writes about its outcome. -/
def evalLog (t : Tree) : Except Fault Value → List LogLine
  | .ok v => [⟨.debug, "evaluated " ++ t.render ++ " to " ++ v.logText⟩]
  | .error f =>
    (match f with
     | .unbound name => [⟨.trace, "symbol " ++ name ++ " is unbound"⟩]
     | _ => []) ++
    [⟨.debug, "evaluation of " ++ t.render ++ " failed: " ++ f.message⟩]

/-- Evaluates the tree, looking symbols up in `env` and reserving repeated strings from
`alloc`. -/
def eval (e : Expression) (alloc : Allocator) (env : String → Option Value) :
    Logged (Expression × Except Fault Value) :=
  match e.tree with
  | none => ⟨(e, .error (e.fault.getD .noExpression)), []⟩
  | some t =>
    let res := t.eval alloc env
    let fault := match res with
      | .ok _ => none
      | .error f => some f
    ⟨({ e with fault }, res), evalLog t res⟩

/-- The lookup that a parameter list binds: every parameter's value by its name, a later
parameter of a name before an earlier one; the first parameter that cannot be bound is a
fault. -/
def bindings (ps : Params) : Except Fault (List (String × Value)) :=
  ps.items.foldlM (fun acc p => (p.value.toValue p.name).map fun v => (p.name, v) :: acc) []

/-- The value of `name` in a list of bindings: its first entry. -/
def lookup (table : List (String × Value)) (name : String) : Option Value :=
  (table.find? (·.1 == name)).map (·.2)

/-- Evaluates the tree against a parameter list. -/
def evalParams (e : Expression) (alloc : Allocator) (ps : Params) :
    Logged (Expression × Except Fault Value) :=
  match e.tree with
  | none => e.eval alloc fun _ => none
  | some _ =>
    match bindings ps with
    | .error f => ⟨({ e with fault := some f }, .error f), []⟩
    | .ok table => e.eval alloc (lookup table)

end Expression

end ExprLang
