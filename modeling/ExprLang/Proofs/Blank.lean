import ExprLang.Proofs.Cursor
import ExprLang.Proofs.Status

/-!
# Blank texts

Two tests decide whether a text holds anything, and they use different classes of characters
(`ExprLang.Text.Blank`). An expression is no expression when its text is white space alone,
in the sense of Unicode (`Text.isWhiteSpace`); every other text is read by the parser, and the
expression takes the parser's outcome. The scanner gives the end as its first token when the
text is made of the five ASCII blanks alone (`Text.isBlank`). So the two agree in one
direction only (`ofText_noExpression_iff`):

> an expression made from `s` is no expression exactly when `s` is white space alone; the
> first token of `s` is the end exactly when `s` is blanks alone; and then `s` is no
> expression. A text that is not white space alone has the tree and the fault of its reading.

The other direction fails for white space that is no blank, such as the vertical tab: the
text `"\x0b"` is no expression, but its first token is an invalid symbol
(`vertical_tab_noExpression`).
-/

namespace ExprLang

namespace Text

theorem all_isWhiteSpace_of_all_isBlank {s : String} (h : s.all isBlank = true) :
    s.all isWhiteSpace = true := by
  simp only [String.all_bool_eq, List.all_eq_true] at h ⊢
  exact fun c hc => isWhiteSpace_of_isBlank c (h c hc)

end Text

namespace Expression

theorem noExpression_phase : Fault.noExpression.phase? ≠ some .reading := by
  simp [Fault.phase?]

/-- Any text but white space alone takes the outcome of its reading: the tree it reads as, or
the fault of reading it. -/
theorem ofText_of_not_blank {s : String} {d : Nat} (hs : s.all Text.isWhiteSpace = false) :
    (∀ t, (ofText s d).value.tree = some t ↔ (Tree.readAll d (Lexeme.ofText s)).result = .ok t) ∧
      ∀ f, (ofText s d).value.fault = some f ↔
        (Tree.readAll d (Lexeme.ofText s)).result = .error f := by
  cases h : (Tree.readAll d (Lexeme.ofText s)).result with
  | ok t' => simp [ofText, parse, hs, h]
  | error f' => simp [ofText, parse, hs, h]

/-- An expression is no expression exactly when its text is white space alone: a reading
never fails for want of an expression. -/
theorem fault_ofText_eq_noExpression_iff (s : String) (d : Nat) :
    (ofText s d).value.fault = some .noExpression ↔ s.all Text.isWhiteSpace = true := by
  refine ⟨fun h => ?_, ofText_fault_of_blank⟩
  cases hs : s.all Text.isWhiteSpace with
  | true => rfl
  | false =>
    have hread := ((ofText_of_not_blank hs).2 _).1 h
    exact absurd (Tree.phase_of_readAll_error hread) noExpression_phase

end Expression

/-- The scanner finds no token exactly in a text of blanks. -/
theorem scan_eq_endOfText_iff_all_isBlank (s : String) :
    (Token.scan s.toList).1 = .endOfText ↔ s.all Text.isBlank = true := by
  rw [Token.scan_eq_endOfText_iff, String.all_bool_eq, List.all_eq_true]

/-- An expression made from `s`, at any limit, is no expression exactly when `s` is white space
alone. The scanner finds no token in `s` exactly when `s` is blanks alone, and then `s` is no
expression. Any other text than white space alone has the tree and the fault of its reading. -/
theorem ofText_noExpression_iff (s : String) (d : Nat) :
    ((Expression.ofText s d).value.fault = some .noExpression ↔
        s.all Text.isWhiteSpace = true) ∧
      ((Token.scan s.toList).1 = .endOfText ↔ s.all Text.isBlank = true) ∧
      ((Token.scan s.toList).1 = .endOfText →
        (Expression.ofText s d).value.fault = some .noExpression) ∧
      (s.all Text.isWhiteSpace = false →
        (∀ t, (Expression.ofText s d).value.tree = some t ↔
          (Tree.readAll d (Lexeme.ofText s)).result = .ok t) ∧
        ∀ f, (Expression.ofText s d).value.fault = some f ↔
          (Tree.readAll d (Lexeme.ofText s)).result = .error f) := by
  refine ⟨Expression.fault_ofText_eq_noExpression_iff s d, scan_eq_endOfText_iff_all_isBlank s,
    fun h => ?_, Expression.ofText_of_not_blank⟩
  exact (Expression.fault_ofText_eq_noExpression_iff s d).2
    (Text.all_isWhiteSpace_of_all_isBlank ((scan_eq_endOfText_iff_all_isBlank s).1 h))

/-- The vertical tab is white space but no blank: the text `"\x0b"` is no expression, yet the
scanner finds a token in it, an invalid symbol. -/
theorem vertical_tab_noExpression :
    ¬ ((Expression.ofText "\x0b").value.fault = some .noExpression ↔
      (Token.scan "\x0b".toList).1 = .endOfText) := by
  rw [Expression.fault_ofText_eq_noExpression_iff, scan_eq_endOfText_iff_all_isBlank,
    String.all_bool_eq, String.all_bool_eq, show "\x0b".toList = ['\x0b'] from rfl]
  decide

end ExprLang
