import ExprLang.Tree
import ExprLang.Token.Lexeme
import ExprLang.Fault

/-!
# Reading expressions

A predictive parser over the lexemes of a text, with one lexeme of lookahead. The grammar,
lowest precedence first:

```text
expression  := comparison ( ("&&" | "||") expression )?
comparison  := sum ( ("==" | "!=" | ">" | ">=" | "<" | "<=") sum )?
sum         := product ( ("+" | "-") product )*
product     := signed(power) ( ("*" | "/" | "%") signed(power) )*
power       := atom ( "^" signed(atom) )?
signed(x)   := ("+" | "-" | "!") x | x
atom        := NUMBER | STRING | BOOLEAN | SYMBOL | "(" expression ")"
```

`&&` and `||` share one level and group to the right; `+ -` and `* / %` group to the left; a
comparison and `^` are taken at most once per level, so `2^3^4` and `a<b<c` leave their last
part unread. A prefix `+` adds no node.

Nesting is limited: each entry into `expression` (the whole text, a bracket, the right side
of `&&` or `||`) and each prefix counts one level, and entering a level when `limit` levels
are already open is the fault `tooDeep`.

Faults name the word after the lookahead: `unexpected end` at the end, the scanner's message at
an invalid token, `expect an operand` at `)` or an operator, `expect ')'` after an unclosed
bracket, `unacceptable operator` for a prefix other than `+ - !`. Reading a whole text
(`Tree.read`) also refuses anything after the expression other than the end, naming the word
where it starts.

`Parse.run` is one function over the grammar levels. Every level returns the lexemes it did
not consume, never more than it was given, and the recursion ends by the measure
`(lexemes left, level rank)`: a call on the same lexemes goes to a lower level, and every
other call follows a consumed lexeme.
-/

namespace ExprLang

/-- The levels of the grammar. `sumTail acc` and `productTail acc` go on with a chain whose
left part `acc` has been read; `signed inner` is an optional prefix before `inner`. -/
inductive Level where
  | expression
  | comparison
  | sum
  | sumTail (acc : Tree)
  | product
  | productTail (acc : Tree)
  | signed (inner : Level)
  | power
  | atom
deriving Inhabited

namespace Level

/-- The rank of a level: every level calls lower ranks on the same lexemes. -/
def rank : Level → Nat
  | expression => 9
  | comparison => 8
  | sum => 7
  | sumTail _ => 6
  | product => 5
  | productTail _ => 4
  | signed inner => inner.rank + 1
  | power => 2
  | atom => 0

end Level

namespace Parse

/-- What a level gives when it starts at the lexemes `ls`: a tree or a fault, and the lexemes
after what it consumed, never more than `ls`. -/
abbrev Step (ls : List Lexeme) :=
  { o : Except Fault Tree × List Lexeme // o.2.length ≤ ls.length }

/-- The operator at the front of the lexemes, if it is one that `p` accepts, and the lexemes
after it. -/
def operatorAhead (p : Operator → Bool) :
    (ls : List Lexeme) → Option (Operator × { r : List Lexeme // r.length < ls.length })
  | l :: r =>
    match l.token with
    | .op o => if p o then some (o, ⟨r, by simp⟩) else none
    | _ => none
  | [] => none

/-- The word after the lookahead, quoted by syntax faults. -/
def nextWord : List Lexeme → String
  | l :: _ => l.upcoming
  | [] => ""

/-- A syntax fault at the lookahead. -/
def malformed (message : String) (ls : List Lexeme) : Fault :=
  .malformed message (nextWord ls)

/-- `+` and `-` between products. -/
def isAdditive (o : Operator) : Bool :=
  o == .plus || o == .minus

/-- `*`, `/` and `%` between factors. -/
def isMultiplicative (o : Operator) : Bool :=
  o == .times || o == .divide || o == .modulo

/-- The tree of a prefix operator applied to `t`: a prefix `+` adds no node. -/
def applyPrefix (o : Operator) (t : Tree) : Tree :=
  if o = .plus then t else .unary o t

/-- Reads the level `lv` from the lexemes `ls` with `depth` levels of nesting open, at most
`limit` allowed. -/
def run (limit : Nat) (lv : Level) (depth : Nat) (ls : List Lexeme) : Step ls :=
  match lv with
  | .expression =>
    if limit ≤ depth then ⟨(.error (.tooDeep limit), ls), Nat.le_refl _⟩
    else
      match run limit .comparison (depth + 1) ls with
      | ⟨(.ok left, rest), h⟩ =>
        match operatorAhead Operator.isLogical rest with
        | some (o, ⟨r, hr⟩) =>
          match run limit .expression (depth + 1) r with
          | ⟨(res, r'), h'⟩ => ⟨(res.map (.binary o left), r'), by simp only at h h' ⊢; omega⟩
        | none => ⟨(.ok left, rest), h⟩
      | other => other
  | .comparison =>
    match run limit .sum depth ls with
    | ⟨(.ok left, rest), h⟩ =>
      match operatorAhead Operator.isComparison rest with
      | some (o, ⟨r, hr⟩) =>
        match run limit .sum depth r with
        | ⟨(res, r'), h'⟩ => ⟨(res.map (.binary o left), r'), by simp only at h h' ⊢; omega⟩
      | none => ⟨(.ok left, rest), h⟩
    | other => other
  | .sum =>
    match run limit .product depth ls with
    | ⟨(.ok left, rest), h⟩ =>
      match run limit (.sumTail left) depth rest with
      | ⟨o, h'⟩ => ⟨o, by simp only at h h'; omega⟩
    | other => other
  | .sumTail acc =>
    match operatorAhead isAdditive ls with
    | some (o, ⟨r, hr⟩) =>
      match run limit .product depth r with
      | ⟨(.ok right, r'), h'⟩ =>
        match run limit (.sumTail (.binary o acc right)) depth r' with
        | ⟨o', h''⟩ => ⟨o', by simp only at h' h''; omega⟩
      | ⟨(.error f, r'), h'⟩ => ⟨(.error f, r'), by simp only at h' ⊢; omega⟩
    | none => ⟨(.ok acc, ls), Nat.le_refl _⟩
  | .product =>
    match run limit (.signed .power) depth ls with
    | ⟨(.ok left, rest), h⟩ =>
      match run limit (.productTail left) depth rest with
      | ⟨o, h'⟩ => ⟨o, by simp only at h h'; omega⟩
    | other => other
  | .productTail acc =>
    match operatorAhead isMultiplicative ls with
    | some (o, ⟨r, hr⟩) =>
      match run limit (.signed .power) depth r with
      | ⟨(.ok right, r'), h'⟩ =>
        match run limit (.productTail (.binary o acc right)) depth r' with
        | ⟨o', h''⟩ => ⟨o', by simp only at h' h''; omega⟩
      | ⟨(.error f, r'), h'⟩ => ⟨(.error f, r'), by simp only at h' ⊢; omega⟩
    | none => ⟨(.ok acc, ls), Nat.le_refl _⟩
  | .signed inner =>
    match operatorAhead (fun _ => true) ls with
    | some (o, ⟨r, hr⟩) =>
      if o.isPrefix then
        if limit ≤ depth then ⟨(.error (.tooDeep limit), r), Nat.le_of_lt hr⟩
        else
          match run limit inner (depth + 1) r with
          | ⟨(res, r'), h'⟩ => ⟨(res.map (applyPrefix o), r'), by simp only at h' ⊢; omega⟩
      else
        ⟨(.error (malformed ("unacceptable operator '" ++ o.spelling ++ "'") ls), ls),
          Nat.le_refl _⟩
    | none => run limit inner depth ls
  | .power =>
    match run limit .atom depth ls with
    | ⟨(.ok base, rest), h⟩ =>
      match operatorAhead (· == .power) rest with
      | some (_, ⟨r, hr⟩) =>
        match run limit (.signed .atom) depth r with
        | ⟨(res, r'), h'⟩ =>
          ⟨(res.map (.binary .power base), r'), by simp only at h h' ⊢; omega⟩
      | none => ⟨(.ok base, rest), h⟩
    | other => other
  | .atom =>
    match ls with
    | l :: r =>
      match l.token with
      | .number x => ⟨(.ok (.number x), r), by simp⟩
      | .string s => ⟨(.ok (.string s), r), by simp⟩
      | .boolean b => ⟨(.ok (.boolean b), r), by simp⟩
      | .symbol name => ⟨(.ok (.symbol name), r), by simp⟩
      | .openParen =>
        match run limit .expression depth r with
        | ⟨(.ok e, l' :: r'), h⟩ =>
          match l'.token with
          | .closeParen => ⟨(.ok e, r'), by simp only [List.length_cons] at h ⊢; omega⟩
          | _ => ⟨(.error (malformed "expect ')'" (l' :: r')), l' :: r'),
              by simp only [List.length_cons] at h ⊢; omega⟩
        | ⟨(.ok _, []), _⟩ => ⟨(.error (malformed "expect ')'" []), []), by simp⟩
        | ⟨(.error f, r'), h⟩ => ⟨(.error f, r'), by simp only [List.length_cons] at h ⊢; omega⟩
      | .endOfText => ⟨(.error (malformed "unexpected end" (l :: r)), l :: r), Nat.le_refl _⟩
      | .invalid m => ⟨(.error (malformed m (l :: r)), l :: r), Nat.le_refl _⟩
      | .closeParen | .op _ =>
        ⟨(.error (malformed "expect an operand" (l :: r)), l :: r), Nat.le_refl _⟩
    | [] => ⟨(.error (malformed "unexpected end" []), []), Nat.le_refl _⟩
termination_by (ls.length, lv.rank)
decreasing_by
  all_goals
    simp only [Prod.lex_def, Level.rank, List.length_cons, true_and] at *
    omega

end Parse

/-- What reading a text at one grammar level gives: the tree or the fault, how many lexemes
were consumed, and the lexemes left. -/
structure Reading where
  result : Except Fault Tree
  consumed : Nat
  left : List Lexeme

namespace Reading

/-- Whether the lookahead after reading is the end of the text. -/
def atEnd (r : Reading) : Bool :=
  match r.left with
  | l :: _ => match l.token with
    | .endOfText => true
    | _ => false
  | [] => true

end Reading

namespace Tree

/-- Reads one grammar level from the lexemes `ls`, with at most `limit` levels of nesting. -/
def readLevel (limit : Nat) (lv : Level) (ls : List Lexeme) : Reading :=
  let o := (Parse.run limit lv 0 ls).1
  ⟨o.1, ls.length - o.2.length, o.2⟩

/-- Reads a whole text from its lexemes: one expression, followed by nothing but the end. -/
def readAll (limit : Nat) (ls : List Lexeme) : Reading :=
  let r := readLevel limit .expression ls
  match r.result, r.left with
  | .ok _, l :: _ =>
    match l.token with
    | .endOfText => r
    | _ => { r with result := .error (.trailing l.word) }
  | _, _ => r

end Tree

end ExprLang
