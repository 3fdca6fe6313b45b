import ExprLang.Tree
import ExprLang.Token

/-!
# The grammar of expressions

The sentences of the expression language, as an inductive relation over tokens written from
the grammar alone, with no reference to how a parser reads it:

```text
expression  := comparison ( ("&&" | "||") expression )?
comparison  := sum ( ("==" | "!=" | ">" | ">=" | "<" | "<=") sum )?
sum         := product ( ("+" | "-") product )*
product     := factor ( ("*" | "/" | "%") factor )*
factor      := ("+" | "-" | "!") power | power
power       := atom ( "^" exponent )?
exponent    := ("+" | "-" | "!") atom | atom
atom        := NUMBER | STRING | BOOLEAN | SYMBOL | "(" expression ")"
```

`Derives p w t` says that the tokens `w` are a sentence of the phrase `p` and that `t` is the
tree the sentence stands for. Each repetition `( … )*` is a phrase of its own (`sumRest`,
`productRest`) carrying the tree of the chain read so far, so a chain folds to the left:
`a - b - c` stands for `(a - b) - c`. `&&` and `||` nest to the right, brackets leave no
node, a prefix `-` or `!` gives a unary node and a prefix `+` gives none.

`Phrase.continuations` lists the operators that can go on with a sentence of a phrase; a
sentence followed by anything else is complete (`Phrase.EndsBefore`). The rest of the file
collects what the shape of a sentence tells: no sentence of a phrase other than a
repetition is empty, and a power or an atom starts with an operand.
-/

namespace ExprLang

namespace Grammar

/-- `&&` and `||`. -/
def logical : List Operator := [.logicalAnd, .logicalOr]

/-- The six comparisons. -/
def comparisons : List Operator := [.eq, .ne, .gt, .ge, .lt, .le]

/-- `+` and `-` between products. -/
def additive : List Operator := [.plus, .minus]

/-- `*`, `/` and `%` between factors. -/
def multiplicative : List Operator := [.times, .divide, .modulo]

/-- The prefixes that give a unary node: `-` and `!`. -/
def negations : List Operator := [.minus, .logicalNot]

end Grammar

/-- The phrases of the grammar: one for each rule, and one for the repeated part of each
chain, which carries the tree of the chain read so far. -/
inductive Phrase where
  | expression
  | comparison
  | sum
  | sumRest (acc : Tree)
  | product
  | productRest (acc : Tree)
  | factor
  | power
  | exponent
  | atom

namespace Phrase

open Grammar

/-- The operators that can go on with a sentence of the phrase. -/
def continuations : Phrase → List Operator
  | expression => logical ++ comparisons ++ additive ++ multiplicative ++ [.power]
  | comparison => comparisons ++ additive ++ multiplicative ++ [.power]
  | sum | sumRest _ => additive ++ multiplicative ++ [.power]
  | product | productRest _ => multiplicative ++ [.power]
  | factor | power => [.power]
  | exponent | atom => []

/-- The tokens `rest` do not begin with an operator that goes on with a sentence of `p`. -/
def EndsBefore (p : Phrase) : List Token → Prop
  | .op o :: _ => o ∉ p.continuations
  | _ => True

/-- How many levels of nesting a phrase opens before it reads anything: an expression opens
one. -/
def opens : Phrase → Nat
  | expression => 1
  | _ => 0

/-- The repeated parts of chains, the only phrases with an empty sentence. -/
def repeats : Phrase → Bool
  | sumRest _ | productRest _ => true
  | _ => false

@[simp] theorem endsBefore_op {p : Phrase} {o : Operator} {ts : List Token} :
    p.EndsBefore (.op o :: ts) ↔ o ∉ p.continuations := Iff.rfl

/-- What ends a sentence of `p` ends one of every phrase with fewer continuations. -/
theorem EndsBefore.mono {p q : Phrase} {ts : List Token} (h : p.EndsBefore ts)
    (hsub : q.continuations ⊆ p.continuations) : q.EndsBefore ts := by
  match ts, h with
  | .op o :: _, h => exact fun ho => h (hsub ho)
  | [], _ | .number _ :: _, _ | .string _ :: _, _ | .boolean _ :: _, _
  | .symbol _ :: _, _ | .openParen :: _, _ | .closeParen :: _, _ | .endOfText :: _, _
  | .invalid _ :: _, _ => trivial

/-- Nothing goes on with an atom or an exponent: they end before anything. -/
theorem EndsBefore.of_continuations_nil {p : Phrase} {ts : List Token}
    (h : p.continuations = []) : p.EndsBefore ts :=
  EndsBefore.mono (p := .atom) (by
    match ts with
    | .op _ :: _ => simp [continuations]
    | [] | .number _ :: _ | .string _ :: _ | .boolean _ :: _ | .symbol _ :: _
    | .openParen :: _ | .closeParen :: _ | .endOfText :: _ | .invalid _ :: _ => trivial)
    (by simp [h])

end Phrase

open Grammar in
/-- `Derives p w t`: the tokens `w` are a sentence of the phrase `p`, standing for `t`. -/
inductive Derives : Phrase → List Token → Tree → Prop where
  | expression {w t} : Derives .comparison w t → Derives .expression w t
  | logical {w₁ w₂ l r o} : Derives .comparison w₁ l → o ∈ logical →
      Derives .expression w₂ r → Derives .expression (w₁ ++ .op o :: w₂) (.binary o l r)
  | comparison {w t} : Derives .sum w t → Derives .comparison w t
  | compare {w₁ w₂ l r o} : Derives .sum w₁ l → o ∈ comparisons → Derives .sum w₂ r →
      Derives .comparison (w₁ ++ .op o :: w₂) (.binary o l r)
  | sum {w₁ w₂ l t} : Derives .product w₁ l → Derives (.sumRest l) w₂ t →
      Derives .sum (w₁ ++ w₂) t
  | sumEnd {acc} : Derives (.sumRest acc) [] acc
  | sumStep {w₁ w₂ acc r t o} : o ∈ additive → Derives .product w₁ r →
      Derives (.sumRest (.binary o acc r)) w₂ t → Derives (.sumRest acc) (.op o :: w₁ ++ w₂) t
  | product {w₁ w₂ l t} : Derives .factor w₁ l → Derives (.productRest l) w₂ t →
      Derives .product (w₁ ++ w₂) t
  | productEnd {acc} : Derives (.productRest acc) [] acc
  | productStep {w₁ w₂ acc r t o} : o ∈ multiplicative → Derives .factor w₁ r →
      Derives (.productRest (.binary o acc r)) w₂ t →
      Derives (.productRest acc) (.op o :: w₁ ++ w₂) t
  | factor {w t} : Derives .power w t → Derives .factor w t
  | factorPlus {w t} : Derives .power w t → Derives .factor (.op .plus :: w) t
  | factorNegated {w t o} : o ∈ negations → Derives .power w t →
      Derives .factor (.op o :: w) (.unary o t)
  | power {w t} : Derives .atom w t → Derives .power w t
  | raise {w₁ w₂ b e} : Derives .atom w₁ b → Derives .exponent w₂ e →
      Derives .power (w₁ ++ .op .power :: w₂) (.binary .power b e)
  | exponent {w t} : Derives .atom w t → Derives .exponent w t
  | exponentPlus {w t} : Derives .atom w t → Derives .exponent (.op .plus :: w) t
  | exponentNegated {w t o} : o ∈ negations → Derives .atom w t →
      Derives .exponent (.op o :: w) (.unary o t)
  | number (x : Float) : Derives .atom [.number x] (.number x)
  | string (s : String) : Derives .atom [.string s] (.string s)
  | boolean (b : Bool) : Derives .atom [.boolean b] (.boolean b)
  | symbol (name : String) : Derives .atom [.symbol name] (.symbol name)
  | paren {w t} : Derives .expression w t → Derives .atom (.openParen :: w ++ [.closeParen]) t

namespace Derives

open Grammar

variable {p : Phrase} {w : List Token} {t : Tree}

/-- Only the repeated part of a chain can be empty. -/
theorem ne_nil (h : Derives p w t) : p.repeats = false → w ≠ [] := by
  induction h with
  | expression _ ih | comparison _ ih | factor _ ih | power _ ih | exponent _ ih =>
    exact fun _ => ih rfl
  | sum _ _ ih | product _ _ ih =>
    exact fun _ hw => ih rfl (List.append_eq_nil_iff.1 hw).1
  | sumEnd | productEnd => simp [Phrase.repeats]
  | _ => simp

/-- A sentence holds no final token: neither the end of the text nor an invalid token. -/
theorem not_final (h : Derives p w t) : ∀ tk ∈ w, tk.isFinal = false := by
  induction h <;> simp_all [Token.isFinal, or_imp]

/-- A power, and so an atom, starts with an operand and never with an operator. -/
theorem head_operand (h : Derives p w t) :
    p = .power ∨ p = .atom → ∃ tk w', w = tk :: w' ∧ ∀ o, tk ≠ .op o := by
  induction h with
  | power _ ih => exact fun _ => ih (.inr rfl)
  | raise _ _ ih _ =>
    intro _
    obtain ⟨tk, w', rfl, htk⟩ := ih (.inr rfl)
    exact ⟨tk, _, rfl, htk⟩
  | number x => exact fun _ => ⟨_, [], rfl, by simp⟩
  | string s => exact fun _ => ⟨_, [], rfl, by simp⟩
  | boolean b => exact fun _ => ⟨_, [], rfl, by simp⟩
  | symbol name => exact fun _ => ⟨_, [], rfl, by simp⟩
  | paren _ _ => exact fun _ => ⟨_, _, rfl, by simp⟩
  | _ => simp

/-- The repeated part of a sum is empty or starts with `+` or `-`. -/
theorem sumRest_cases {acc : Tree} (h : Derives (.sumRest acc) w t) :
    w = [] ∨ ∃ o w', w = .op o :: w' ∧ o ∈ additive := by
  cases h with
  | sumEnd => exact .inl rfl
  | sumStep ho _ _ => exact .inr ⟨_, _, rfl, ho⟩

/-- The repeated part of a product is empty or starts with `*`, `/` or `%`. -/
theorem productRest_cases {acc : Tree} (h : Derives (.productRest acc) w t) :
    w = [] ∨ ∃ o w', w = .op o :: w' ∧ o ∈ multiplicative := by
  cases h with
  | productEnd => exact .inl rfl
  | productStep ho _ _ => exact .inr ⟨_, _, rfl, ho⟩

/-- A product ends before the repeated part of a sum and whatever ends the sum. -/
theorem endsBefore_sumRest {acc : Tree} {ts : List Token} (h : Derives (.sumRest acc) w t)
    (hs : Phrase.sum.EndsBefore ts) : Phrase.product.EndsBefore (w ++ ts) := by
  rcases h.sumRest_cases with rfl | ⟨o, w', rfl, ho⟩
  · exact hs.mono (by simp [Phrase.continuations])
  · rw [List.cons_append, Phrase.endsBefore_op]
    simp only [additive, List.mem_cons, List.not_mem_nil, or_false] at ho
    rcases ho with rfl | rfl <;> decide

/-- A factor ends before the repeated part of a product and whatever ends the product. -/
theorem endsBefore_productRest {acc : Tree} {ts : List Token}
    (h : Derives (.productRest acc) w t) (hs : Phrase.product.EndsBefore ts) :
    Phrase.factor.EndsBefore (w ++ ts) := by
  rcases h.productRest_cases with rfl | ⟨o, w', rfl, ho⟩
  · exact hs.mono (by simp [Phrase.continuations])
  · rw [List.cons_append, Phrase.endsBefore_op]
    simp only [multiplicative, List.mem_cons, List.not_mem_nil, or_false] at ho
    rcases ho with rfl | rfl | rfl <;> decide

end Derives

end ExprLang
