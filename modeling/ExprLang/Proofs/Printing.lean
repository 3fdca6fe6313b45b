import ExprLang.Proofs.Reading
import ExprLang.Proofs.Scanning

/-!
# Printed trees read back

`Tree.render` prints a tree fully bracketed. Read back with the greatest limit, the printed
text gives the same tree, for every tree the reader gives at any limit, provided its number
leaves read back from their printed text (`readAll_render`):

> `(Tree.readAll limit (Lexeme.ofText s)).result = .ok t` and every number leaf of `t`
> reads back (`Number.ReadsBack`) give
> `(Tree.readAll limitMax (Lexeme.ofText t.render)).result = .ok t`.

A number reads back when it is finite and not negative, so that it is printed as a plain
decimal, and reading that decimal gives the number. The reader never gives a negative number
(a sign is an operator of its own), but it gives an infinity for a decimal beyond the range of
binary64, such as `1e400`; that is printed as `inf`, which reads back as a symbol.

The proof has three steps, one for each side of the printed form:

* what the reader gives is `Tree.Readable` (`Derives.readable`): its prefixes are `-` and
  `!`, every other operator stands between two operands, and its symbols have the names the
  scanner reads;
* the tokens of a readable tree's printed form are its bracketed sentence, `Tree.sentence`
  (`tokens_render`), by induction on the tree with what `Token.Follows` a part;
* a bracketed sentence is a sentence of the grammar for its tree (`derives_sentence`), which
  the reader reads whole (`readAll_of_derives`).
-/

namespace ExprLang

open Grammar

/-- A number whose printed text reads back as itself: it is finite and not negative, so it is
printed as a plain decimal, and reading that decimal gives the number. -/
def Number.ReadsBack (x : Float) : Prop :=
  (∃ m, Number.Parts.ofFloat x = .finite false m) ∧ Number.read? (Number.text x) = some x

namespace Tree

/-- The number leaves of a tree, from left to right. -/
def numbers : Tree → List Float
  | number x => [x]
  | unary _ a => a.numbers
  | binary _ l r => l.numbers ++ r.numbers
  | _ => []

/-- The tokens of the printed form of a tree: every operator node in brackets. -/
def sentence : Tree → List Token
  | number x => [.number x]
  | string s => [.string s]
  | boolean b => [.boolean b]
  | symbol name => [.symbol name]
  | unary o a => .openParen :: .op o :: a.sentence ++ [.closeParen]
  | binary o l r => .openParen :: l.sentence ++ .op o :: r.sentence ++ [.closeParen]

/-- Trees of the shape the reader gives: the prefixes are `-` and `!`, every other operator
stands between two operands, and symbols have the names the scanner reads. -/
def Readable : Tree → Prop
  | symbol name => Token.SymbolName name
  | unary o a => o ∈ negations ∧ a.Readable
  | binary o l r => o ∈ Phrase.expression.continuations ∧ l.Readable ∧ r.Readable
  | _ => True

end Tree

/-! ## The reader gives readable trees -/

/-- The tree a repeated part of a chain starts from is readable. -/
def Phrase.StartsReadable : Phrase → Prop
  | .sumRest acc | .productRest acc => acc.Readable
  | _ => True

theorem Derives.readable {p : Phrase} {w : List Token} {t : Tree} (d : Derives p w t)
    (hs : ∀ n, Token.symbol n ∈ w → Token.SymbolName n) (ha : p.StartsReadable) :
    t.Readable := by
  induction d with
  | expression _ ih | comparison _ ih | factor _ ih | power _ ih | exponent _ ih =>
    exact ih hs trivial
  | factorPlus _ ih | exponentPlus _ ih =>
    exact ih (fun n h => hs n (List.mem_cons_of_mem _ h)) trivial
  | paren _ ih =>
    exact ih (fun n h => hs n (List.mem_cons_of_mem _ (List.mem_append_left _ h))) trivial
  | factorNegated ho _ ih | exponentNegated ho _ ih =>
    exact ⟨ho, ih (fun n h => hs n (List.mem_cons_of_mem _ h)) trivial⟩
  | logical _ ho _ ih₁ ih₂ | compare _ ho _ ih₁ ih₂ =>
    refine ⟨by simp [Phrase.continuations, ho], ih₁ (fun n h => hs n (by simp [h])) trivial,
      ih₂ (fun n h => hs n (by simp [h])) trivial⟩
  | raise _ _ ih₁ ih₂ =>
    exact ⟨by simp [Phrase.continuations], ih₁ (fun n h => hs n (by simp [h])) trivial,
      ih₂ (fun n h => hs n (by simp [h])) trivial⟩
  | sum _ _ ih₁ ih₂ | product _ _ ih₁ ih₂ =>
    exact ih₂ (fun n h => hs n (by simp [h]))
      (ih₁ (fun n h => hs n (by simp [h])) trivial)
  | sumEnd | productEnd => exact ha
  | sumStep ho _ _ ih₁ ih₂ | productStep ho _ _ ih₁ ih₂ =>
    -- the chain goes on from the operator node over the tree read so far
    exact ih₂ (fun n h => hs n (by simp [h]))
      ⟨by simp [Phrase.continuations, ho], ha, ih₁ (fun n h => hs n (by simp [h])) trivial⟩
  | number | string | boolean => trivial
  | symbol name => exact hs name (by simp)

/-! ## The tokens of a printed tree -/

/-- A printed tree starts with a character other than `=`, so a prefix `!` before it is no
`!=`. -/
theorem Tree.render_head {t : Tree} (ht : t.Readable) (hn : ∀ x ∈ t.numbers, Number.ReadsBack x) :
    ∃ c u, t.render.toList = c :: u ∧ c ≠ '=' := by
  cases t with
  | number x =>
    obtain ⟨⟨m, hm⟩, -⟩ := hn x (by simp [numbers])
    obtain ⟨whole, frac, he, hne, hw, -⟩ := Number.plainDecimal_text hm
    obtain ⟨c, w', rfl⟩ := List.exists_cons_of_ne_nil hne
    refine ⟨c, w' ++ frac, he, fun hc => ?_⟩
    have := hw c List.mem_cons_self
    rw [hc] at this
    exact absurd this (by decide)
  | string s => exact ⟨_, _, by rw [render, toList_quoteLiteral]; rfl, by decide⟩
  | boolean b => cases b <;> exact ⟨_, _, rfl, by decide⟩
  | symbol name =>
    obtain ⟨c, u, hcu, hc, -⟩ := ht
    refine ⟨c, u, hcu, fun he => ?_⟩
    rw [he] at hc
    exact absurd hc (by decide)
  | unary o a =>
    refine ⟨'(', (o.spelling ++ (a.render ++ ")")).toList, ?_, by decide⟩
    rw [render, String.append_assoc, String.append_assoc, String.toList_append]
    rfl
  | binary o l r =>
    refine ⟨'(', (l.render ++ (" " ++ (o.spelling ++ (" " ++ (r.render ++ ")"))))).toList, ?_,
      by decide⟩
    rw [render, String.append_assoc, String.append_assoc, String.append_assoc,
      String.append_assoc, String.append_assoc, String.toList_append]
    rfl

/-- The tokens of a readable tree's printed form, before what follows a part of a printed
tree, are its bracketed sentence. -/
theorem tokens_render {t : Tree} {r : List Char} (ht : t.Readable)
    (hn : ∀ x ∈ t.numbers, Number.ReadsBack x) (hr : Token.Follows r) :
    Lexeme.tokens (t.render.toList ++ r) = t.sentence ++ Lexeme.tokens r := by
  induction t generalizing r with
  | number x =>
    obtain ⟨⟨m, hm⟩, hx⟩ := hn x (by simp [Tree.numbers])
    rw [← String.ofList_toList (s := Number.text x)] at hx
    exact Lexeme.tokens_plain (Number.plainDecimal_text hm) hx hr
  | string s => exact Lexeme.tokens_quoteLiteral s r
  | boolean b => exact Lexeme.tokens_boolean b hr
  | symbol name => exact Lexeme.tokens_symbol ht hr
  | unary o a ih =>
    obtain ⟨ho, ha⟩ := ht
    have hneg : o = .minus ∨ o = .logicalNot := by simpa [negations] using ho
    obtain ⟨c, u, hcu, hc⟩ := Tree.render_head ha hn
    simp only [Tree.render, String.toList_append, List.append_assoc,
      show "(".toList = ['('] from rfl, show ")".toList = [')'] from rfl, List.cons_append,
      List.nil_append]
    rw [Lexeme.tokens_openParen, hcu, List.cons_append, Lexeme.tokens_prefix hneg hc,
      ← List.cons_append, ← hcu, ih ha hn (.close _), Lexeme.tokens_closeParen]
    simp [Tree.sentence]
  | binary o l r' ihl ihr =>
    obtain ⟨-, hl, hr'⟩ := ht
    have hnl : ∀ x ∈ l.numbers, Number.ReadsBack x := fun x h => hn x (by simp [Tree.numbers, h])
    have hnr : ∀ x ∈ r'.numbers, Number.ReadsBack x := fun x h => hn x (by simp [Tree.numbers, h])
    simp only [Tree.render, String.toList_append, List.append_assoc,
      show "(".toList = ['('] from rfl, show ")".toList = [')'] from rfl,
      show " ".toList = [' '] from rfl, List.cons_append, List.nil_append]
    rw [Lexeme.tokens_openParen, ihl hl hnl (.op o _), Lexeme.tokens_blank, Lexeme.tokens_op,
      ihr hr' hnr (.close _), Lexeme.tokens_closeParen]
    simp [Tree.sentence]

/-! ## Bracketed sentences are sentences of the grammar -/

namespace Derives

variable {w : List Token} {t : Tree}

theorem factor_of_atom (d : Derives .atom w t) : Derives .factor w t :=
  .factor (.power d)

theorem product_of_factor (d : Derives .factor w t) : Derives .product w t := by
  simpa using Derives.product d .productEnd

theorem sum_of_product (d : Derives .product w t) : Derives .sum w t := by
  simpa using Derives.sum d .sumEnd

theorem expression_of_sum (d : Derives .sum w t) : Derives .expression w t :=
  .expression (.comparison d)

theorem expression_of_atom (d : Derives .atom w t) : Derives .expression w t :=
  expression_of_sum (sum_of_product (product_of_factor (factor_of_atom d)))

/-- Two atoms with any binary operator of the grammar between them are an expression. -/
theorem expression_binary {o : Operator} {w₁ w₂ : List Token} {l r : Tree}
    (ho : o ∈ Phrase.expression.continuations) (hl : Derives .atom w₁ l)
    (hr : Derives .atom w₂ r) : Derives .expression (w₁ ++ .op o :: w₂) (.binary o l r) := by
  simp only [Phrase.continuations, List.mem_append, List.mem_singleton] at ho
  rcases ho with (((ho | ho) | ho) | ho) | rfl
  · exact .logical (.comparison (sum_of_product (product_of_factor (factor_of_atom hl)))) ho
      (expression_of_atom hr)
  · exact .expression (.compare (sum_of_product (product_of_factor (factor_of_atom hl))) ho
      (sum_of_product (product_of_factor (factor_of_atom hr))))
  · have := Derives.sum (product_of_factor (factor_of_atom hl))
      (.sumStep ho (product_of_factor (factor_of_atom hr)) .sumEnd)
    simpa using expression_of_sum this
  · have := Derives.product (factor_of_atom hl) (.productStep ho (factor_of_atom hr) .productEnd)
    simpa using expression_of_sum (sum_of_product this)
  · exact expression_of_sum (sum_of_product (product_of_factor (.factor (.raise hl (.exponent hr)))))

end Derives

/-- The bracketed sentence of a readable tree is an atom of the grammar for the tree. -/
theorem derives_sentence {t : Tree} (ht : t.Readable) : Derives .atom t.sentence t := by
  induction t with
  | number x => exact .number x
  | string s => exact .string s
  | boolean b => exact .boolean b
  | symbol name => exact .symbol name
  | unary o a ih =>
    obtain ⟨ho, ha⟩ := ht
    have d : Derives .expression (.op o :: a.sentence) (.unary o a) :=
      Derives.expression_of_sum (Derives.sum_of_product (Derives.product_of_factor
        (.factorNegated ho (.power (ih ha)))))
    simpa [Tree.sentence] using Derives.paren d
  | binary o l r ihl ihr =>
    obtain ⟨ho, hl, hr⟩ := ht
    simpa [Tree.sentence] using Derives.paren (Derives.expression_binary ho (ihl hl) (ihr hr))

/-! ## The round trip -/

/-- Printing a tree that the reader gave at any limit, and reading the print with the
greatest limit, gives the tree back, when every number leaf reads back from its printed text.
The printed text is one a program can hold. -/
theorem readAll_render {s : String} {limit : Nat} {t : Tree}
    (ht : (Tree.readAll limit (Lexeme.ofText s)).result = .ok t)
    (hlen : t.render.length ≤ limitMax) (hn : ∀ x ∈ t.numbers, Number.ReadsBack x) :
    (Tree.readAll limitMax (Lexeme.ofText t.render)).result = .ok t := by
  obtain ⟨w, hw, d⟩ := derives_of_readAll ht
  have hsym : ∀ n, Token.symbol n ∈ w → Token.SymbolName n := fun n h =>
    Lexeme.symbolName_of_mem_tokens (by rw [← Lexeme.map_token_ofText, hw]; simp [h])
  have hread : t.Readable := d.readable hsym trivial
  have htok : (Lexeme.ofText t.render).map Lexeme.token = t.sentence ++ [.endOfText] := by
    rw [Lexeme.map_token_ofText, ← List.append_nil t.render.toList,
      tokens_render hread hn .stop, Lexeme.tokens_nil]
  exact readAll_of_derives hlen htok (Derives.expression_of_atom (derives_sentence hread))

/-- The round trip for a text with a prefix, a symbol joined across a blank and a bracket
group, an escaped quote, and a boolean written across a blank; and for a decimal added to a
symbol, whose digits read back as the same number. -/
theorem readAll_render_compound :
    ((Tree.readAll 128 (Lexeme.ofText "-a.b (x) * \"q\\\"\" || !tr ue")).result =
        .ok (.binary .logicalOr (.binary .times (.unary .minus (.symbol "a.b(x)")) (.string "q\""))
          (.unary .logicalNot (.boolean true))) ∧
      (Tree.binary .logicalOr (.binary .times (.unary .minus (.symbol "a.b(x)")) (.string "q\""))
          (.unary .logicalNot (.boolean true))).render.length ≤ limitMax ∧
      (∀ x ∈ (Tree.binary .logicalOr
          (.binary .times (.unary .minus (.symbol "a.b(x)")) (.string "q\""))
          (.unary .logicalNot (.boolean true))).numbers, Number.ReadsBack x) ∧
      (Tree.readAll limitMax (Lexeme.ofText (Tree.binary .logicalOr
          (.binary .times (.unary .minus (.symbol "a.b(x)")) (.string "q\""))
          (.unary .logicalNot (.boolean true))).render)).result =
        .ok (.binary .logicalOr (.binary .times (.unary .minus (.symbol "a.b(x)")) (.string "q\""))
          (.unary .logicalNot (.boolean true)))) ∧
    ((Tree.readAll limitMax (Lexeme.ofText "1.5 + x")).result =
        .ok (.binary .plus (.number 1.5) (.symbol "x")) ∧
      (Tree.binary .plus (.number 1.5) (.symbol "x")).render.length ≤ limitMax ∧
      (∀ x ∈ (Tree.binary .plus (.number 1.5) (.symbol "x")).numbers, Number.ReadsBack x) ∧
      (Tree.readAll limitMax
          (Lexeme.ofText (Tree.binary .plus (.number 1.5) (.symbol "x")).render)).result =
        .ok (.binary .plus (.number 1.5) (.symbol "x"))) :=
  have ht : (Tree.readAll 128 (Lexeme.ofText "-a.b (x) * \"q\\\"\" || !tr ue")).result =
      .ok (.binary .logicalOr (.binary .times (.unary .minus (.symbol "a.b(x)")) (.string "q\""))
        (.unary .logicalNot (.boolean true))) := by cbv
  have hlen : (Tree.binary .logicalOr
      (.binary .times (.unary .minus (.symbol "a.b(x)")) (.string "q\""))
      (.unary .logicalNot (.boolean true))).render.length ≤ limitMax := by decide
  have hn : ∀ x ∈ (Tree.binary .logicalOr
      (.binary .times (.unary .minus (.symbol "a.b(x)")) (.string "q\""))
      (.unary .logicalNot (.boolean true))).numbers, Number.ReadsBack x := by
    simp [Tree.numbers]
  -- the number leaf: the kernel evaluates the binary64 arithmetic of reading and printing
  have hd : Derives .expression [.number 1.5, .op .plus, .symbol "x"]
      (.binary .plus (.number 1.5) (.symbol "x")) :=
    Derives.expression_binary (by simp [Phrase.continuations, additive]) (.number 1.5) (.symbol "x")
  have ht₂ : (Tree.readAll limitMax (Lexeme.ofText "1.5 + x")).result =
      .ok (.binary .plus (.number 1.5) (.symbol "x")) :=
    readAll_of_derives (by decide) (by decide +kernel) hd
  have hlen₂ : (Tree.binary .plus (.number 1.5) (.symbol "x")).render.length ≤ limitMax := by
    decide +kernel
  have hn₂ : ∀ x ∈ (Tree.binary .plus (.number 1.5) (.symbol "x")).numbers, Number.ReadsBack x := by
    intro x hx
    simp only [Tree.numbers, List.append_nil, List.mem_singleton] at hx
    subst hx
    exact ⟨⟨⟨6755399441055744, -52, false⟩, by decide +kernel⟩, by decide +kernel⟩
  ⟨⟨ht, hlen, hn, readAll_render ht hlen hn⟩, ⟨ht₂, hlen₂, hn₂, readAll_render ht₂ hlen₂ hn₂⟩⟩

end ExprLang
