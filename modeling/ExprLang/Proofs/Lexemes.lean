import ExprLang.Token.Lexeme

/-!
# The lexemes of a whole text

`Lexeme.ofText` scans a text up to and including its first final token (the end of the text
or an invalid token). Readers of a whole text rely on the shape of the result, stated here:

* it ends with a final lexeme and no lexeme before that one is final
  (`ofText_eq_append_final`), so nothing follows a final lexeme (`eq_nil_of_final`);
* it has at most one lexeme more than the text has characters (`length_ofText_le`), since
  every lexeme but the last consumes text (`Token.scan_rest_length`).
-/

namespace ExprLang.Lexeme

theorem length_scanFrom_le (cs : List Char) (pos : Nat) :
    (scanFrom cs pos).length ≤ cs.length + 1 := by
  fun_induction scanFrom cs pos with
  | case1 => simp
  | case2 cs pos step stop l h ih =>
    have hlt : step.2.length < cs.length := Token.scan_rest_length cs (by simpa using h)
    simp only [List.length_cons]
    omega

theorem scanFrom_eq_append_final (cs : List Char) (pos : Nat) :
    ∃ pre l, scanFrom cs pos = pre ++ [l] ∧ l.token.isFinal = true ∧
      ∀ l' ∈ pre, l'.token.isFinal = false := by
  fun_induction scanFrom cs pos with
  | case1 cs pos step stop l h => exact ⟨[], l, rfl, h, by simp⟩
  | case2 cs pos step stop l h ih =>
    obtain ⟨pre, l', he, hl, hpre⟩ := ih
    refine ⟨l :: pre, l', by rw [he]; rfl, hl, ?_⟩
    intro l'' hl''
    rcases List.mem_cons.1 hl'' with rfl | hl''
    · simpa using h
    · exact hpre l'' hl''

theorem scanFrom_eq_nil_of_final {cs : List Char} {pos : Nat} {pre r : List Lexeme}
    {l : Lexeme} (he : scanFrom cs pos = pre ++ l :: r) (hl : l.token.isFinal = true) :
    r = [] := by
  fun_induction scanFrom cs pos generalizing pre with
  | case1 =>
    have := congrArg List.length he
    simp only [List.length_append, List.length_cons, List.length_nil] at this
    exact List.eq_nil_of_length_eq_zero (by omega)
  | case2 =>
    rename_i h ih
    match pre, he with
    | [], he =>
      -- the first lexeme is not final, so it is not `l`
      rw [← (List.cons.inj he).1] at hl
      exact absurd hl h
    | _ :: pre', he => exact ih (List.cons.inj he).2

/-- The lexemes of a text end with a final lexeme, and none before it is final. -/
theorem ofText_eq_append_final (s : String) :
    ∃ pre l, ofText s = pre ++ [l] ∧ l.token.isFinal = true ∧
      ∀ l' ∈ pre, l'.token.isFinal = false :=
  scanFrom_eq_append_final s.toList 0

/-- Nothing follows a final lexeme. -/
theorem eq_nil_of_final {s : String} {pre r : List Lexeme} {l : Lexeme}
    (he : ofText s = pre ++ l :: r) (hl : l.token.isFinal = true) : r = [] :=
  scanFrom_eq_nil_of_final he hl

/-- A text has at most one lexeme more than it has characters. -/
theorem length_ofText_le (s : String) : (ofText s).length ≤ s.length + 1 := by
  rw [← String.length_toList]
  exact length_scanFrom_le s.toList 0

end ExprLang.Lexeme
