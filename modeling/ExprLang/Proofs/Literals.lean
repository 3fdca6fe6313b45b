import ExprLang.Proofs.Printing
import ExprLang.Proofs.NumberText
import ExprLang.Proofs.Nesting

/-!
# Values read back from their literals

A value is written as a literal by printing the tree that stands for it (`Tree.ofValue`). An
expression made from that text evaluates, with no bindings, to the value again
(`eval_literal`):

> for every string, both booleans, and every finite number (`Value.IsFinite`),
> `((Expression.ofText (Tree.ofValue v).render).value.eval alloc fun _ => none).value.2 = .ok v`,
> for every allocator `alloc`.

A string comes back through its escapes: a backslash before every quote and backslash, which
the scanner takes away again. A number comes back because its text reads back as the number
(`Number.read?_text`). A negative number is printed as a minus sign before the digits of its
magnitude; the sign is read as a prefix, and evaluating the prefix negates what the digits
read as, which is what reading the whole text as a number does (`Number.read?_minus`).

Numbers that are not finite do not come back. Their texts `NaN`, `inf` and `-inf` are words,
which the scanner reads as symbols, and a symbol has no value without bindings.
-/

namespace ExprLang

/-- Every value but the numbers that are not finite: those are printed as words. -/
def Value.IsFinite : Value → Prop
  | .number x => ∃ negative m, Number.Parts.ofFloat x = .finite negative m
  | _ => True

namespace Text

theorem isWhiteSpace_of_isDigit {c : Char} (h : c.isDigit = true) : isWhiteSpace c = false := by
  have hn := Char.isDigit_iff_toNat.1 h
  rw [show '0'.toNat = 48 from rfl, show '9'.toNat = 57 from rfl] at hn
  simp only [isWhiteSpace, Bool.or_eq_false_iff, Bool.and_eq_false_iff, decide_eq_false_iff_not,
    beq_eq_false_iff_ne, ne_eq]
  omega

/-- A text that starts with a character other than white space is not blank. -/
theorem all_isWhiteSpace_eq_false {s : String} {c : Char} {u : List Char} (h : s.toList = c :: u)
    (hc : isWhiteSpace c = false) : s.all isWhiteSpace = false := by
  rw [String.all_bool_eq, h]
  simp [hc]

end Text


namespace Lexeme

/-- A minus sign before a plain decimal is a prefix and a number. -/
theorem tokens_minus {d : List Char} {y : Float} (hd : Number.PlainDecimal d)
    (hy : Number.read? (String.ofList d) = some y) :
    tokens ('-' :: d) = [.op .minus, .number y, .endOfText] := by
  obtain ⟨c, u, rfl, hc⟩ := hd.exists_head
  have hne : c ≠ '=' := by rintro rfl; exact absurd hc (by decide)
  rw [show '-' :: c :: u = Operator.minus.spelling.toList ++ c :: u from rfl,
    tokens_prefix (.inl rfl) hne, ← List.append_nil (c :: u), tokens_plain hd hy .stop, tokens_nil]

end Lexeme

namespace Expression

/-- An expression made from a text that is not blank and reads as a tree evaluates that tree. -/
theorem eval_ofText {src : String} {d : Nat} {t : Tree} (hs : src.all Text.isWhiteSpace = false)
    (h : (Tree.readAll d (Lexeme.ofText src)).result = .ok t) (alloc : Allocator)
    (env : String → Option Value) :
    ((ofText src d).value.eval alloc env).value.2 = t.eval alloc env := by
  simp [ofText, parse, hs, h, eval]

end Expression

/-- `LiteralOf v src`: the text `src` is not blank, and its tokens are a sentence of at most two
tokens, followed by the end, whose tree evaluates to `v` with no bindings and any allocator. -/
def LiteralOf (v : Value) (src : String) : Prop :=
  src.all Text.isWhiteSpace = false ∧
    ∃ w t, Lexeme.tokens src.toList = w ++ [.endOfText] ∧ Derives .expression w t ∧
      w.length ≤ 2 ∧ ∀ alloc, t.eval alloc (fun _ => none) = .ok v

/-- An expression made from a literal of `v` evaluates to `v`. -/
theorem LiteralOf.eval {v : Value} {src : String} (h : LiteralOf v src) (alloc : Allocator) :
    ((Expression.ofText src).value.eval alloc fun _ => none).value.2 = .ok v := by
  obtain ⟨hs, w, t, hw, d, hlen, hev⟩ := h
  have hread : (Tree.readAll defaultLimit (Lexeme.ofText src)).result = .ok t :=
    readAll_of_derives_le (by rw [Lexeme.map_token_ofText, hw]) d (Nat.le_trans hlen (by decide))
  rw [Expression.eval_ofText hs hread, hev alloc]

theorem literalOf_string (s : String) : LiteralOf (.string s) (Tree.quoteLiteral s) := by
  refine ⟨Text.all_isWhiteSpace_eq_false (Tree.toList_quoteLiteral s) (by decide),
    [.string s], .string s, ?_, Derives.expression_of_atom (.string s), by simp, fun _ => rfl⟩
  rw [← List.append_nil (Tree.quoteLiteral s).toList, Lexeme.tokens_quoteLiteral, Lexeme.tokens_nil]
  rfl

theorem literalOf_boolean (b : Bool) : LiteralOf (.boolean b) (toString b) := by
  refine ⟨?_, [.boolean b], .boolean b, ?_, Derives.expression_of_atom (.boolean b), by simp,
    fun _ => rfl⟩
  · cases b <;> exact Text.all_isWhiteSpace_eq_false rfl (by decide)
  · rw [← List.append_nil (toString b).toList, Lexeme.tokens_boolean b .stop, Lexeme.tokens_nil]
    rfl

open Number in
/-- The plain decimal of a magnitude is a literal of what it reads as. -/
theorem literalOf_plain {m : Magnitude} {y : Float}
    (hy : read? (String.ofList (m.shortest.render Style.plain).toList) = some y) :
    LiteralOf (.number y) (m.shortest.render Style.plain) := by
  have hd := plainDecimal_render m.shortest
  obtain ⟨c, u, hcu, hc⟩ := hd.exists_head
  refine ⟨Text.all_isWhiteSpace_eq_false hcu (Text.isWhiteSpace_of_isDigit hc),
    [.number y], .number y, ?_, Derives.expression_of_atom (.number y), by simp, fun _ => rfl⟩
  rw [← List.append_nil (m.shortest.render Style.plain).toList, Lexeme.tokens_plain hd hy .stop,
    Lexeme.tokens_nil]
  rfl

open Number in
/-- A minus sign before the plain decimal of a magnitude is a literal of the negation of what
the decimal reads as: a prefix `-` and a number. -/
theorem literalOf_minus {m : Magnitude} {y : Float}
    (hy : read? (String.ofList (m.shortest.render Style.plain).toList) = some y) :
    LiteralOf (.number (-y)) ("-" ++ m.shortest.render Style.plain) := by
  have hd := plainDecimal_render m.shortest
  have htext : ("-" ++ m.shortest.render Style.plain).toList =
      '-' :: (m.shortest.render Style.plain).toList := by
    rw [String.toList_append]
    rfl
  refine ⟨Text.all_isWhiteSpace_eq_false htext (by decide), [.op .minus, .number y],
    .unary .minus (.number y), ?_, ?_, by simp, fun _ => rfl⟩
  · rw [htext, Lexeme.tokens_minus hd hy]
    rfl
  · exact Derives.expression_of_sum (Derives.sum_of_product (Derives.product_of_factor
      (.factorNegated (by simp [Grammar.negations]) (.power (.number y)))))

open Number in
/-- The text of a finite number is a literal of the number. -/
theorem literalOf_text {x : Float} (hv : (Value.number x).IsFinite) :
    LiteralOf (.number x) (text x) := by
  obtain ⟨negative, m, hm⟩ := hv
  have hx := read?_text hm
  rw [text_finite hm] at hx ⊢
  cases negative with
  | false =>
    rw [if_neg (by decide), String.empty_append] at hx ⊢
    exact literalOf_plain (by simpa using hx)
  | true =>
    -- reading the signed text negates what the digits read as, so `x` is a negation
    rw [if_pos rfl, ← String.ofList_toList (s := m.shortest.render Style.plain),
      read?_minus (plainDecimal_render m.shortest)] at hx
    obtain ⟨y, hy, rfl⟩ := Option.map_eq_some_iff.1 hx
    rw [if_pos rfl]
    exact literalOf_minus hy

/-- Printing a value as a literal and evaluating the printed text with no bindings gives the
value back: every string, quotes, backslashes and any other characters included, both
booleans, and every finite number, negative numbers and a negative zero included. -/
theorem eval_literal (alloc : Allocator) (v : Value) (hv : v.IsFinite) :
    ((Expression.ofText (Tree.ofValue v).render).value.eval alloc fun _ => none).value.2 =
      .ok v := by
  cases v with
  | number x => exact (literalOf_text hv).eval alloc
  | string s => exact (literalOf_string s).eval alloc
  | boolean b => exact (literalOf_boolean b).eval alloc

/-- A string with quotes, a backslash and a letter beyond ASCII, and a negative number with a
fraction, come back from their literals. -/
theorem eval_literal_escaped_and_negative :
    (Value.IsFinite (.string "say \"hé\\\"") ∧
      ((Expression.ofText (Tree.ofValue (.string "say \"hé\\\"")).render).value.eval
        (.upTo isizeMax (Nat.le_refl _)) fun _ => none).value.2 = .ok (.string "say \"hé\\\"")) ∧
    (Value.IsFinite (.number (-1.5)) ∧
      ((Expression.ofText (Tree.ofValue (.number (-1.5))).render).value.eval
        (.upTo isizeMax (Nat.le_refl _)) fun _ => none).value.2 = .ok (.number (-1.5))) :=
  have hnum : Value.IsFinite (.number (-1.5)) :=
    ⟨true, ⟨3 * 2 ^ 51, -52, false⟩, by decide +kernel⟩
  ⟨⟨trivial, eval_literal _ _ trivial⟩, ⟨hnum, eval_literal _ _ hnum⟩⟩

end ExprLang
