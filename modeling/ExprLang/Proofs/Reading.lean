import Mathlib
import ExprLang.Proofs.Grammar
import ExprLang.Proofs.Levels
import ExprLang.Proofs.Lexemes

/-!
# Reading accepts exactly the grammar

`Parse.run` reads a grammar level from lexemes; `Derives` is the grammar, written on its own
in `ExprLang.Proofs.Grammar`. Each phrase of the grammar is read by one level of the parser
(`Phrase.level`), and the two agree:

* `derives_of_run` (soundness): whatever a level reads, at any nesting limit, is a sentence of
  its phrase followed by the lexemes it leaves, and the tree is the sentence's tree;
* `run_of_derives` (completeness): a sentence of a phrase, followed by lexemes that cannot go
  on with it, is read whole, with those lexemes left, provided the limit leaves room for the
  nesting of the sentence (`depth + w.length + p.opens ≤ limit + 1`).

Both directions go by the shapes in which a sentence is put together: one token, a phrase
inside another, two phrases in a row, an operator before one or two phrases, and an operator
between two. Soundness assembles `Spans` by one lemma per shape (`Spans.binary`,
`Spans.step`, ...); completeness splits the lexemes by `split_binary` and `split_step`, and
reads a prefix by `run_signed_prefix`.

Since the parser is a function, the grammar is unambiguous (`Derives.unique`). For a whole
text (`readAll_ok_iff`): with the greatest limit, reading succeeds with a tree exactly when
the tokens of the text end with the end of the text and the tokens before it are a sentence
of `expression` standing for that tree.
-/

namespace ExprLang

/-- The parser level that reads a phrase. -/
def Phrase.level : Phrase → Level
  | .expression => .expression
  | .comparison => .comparison
  | .sum => .sum
  | .sumRest acc => .sumTail acc
  | .product => .product
  | .productRest acc => .productTail acc
  | .factor => .signed .power
  | .power => .power
  | .exponent => .signed .atom
  | .atom => .atom

/-! ## The parser's operator classes are the grammar's -/

namespace Operator

open Grammar

theorem isLogical_iff {o : Operator} : o.isLogical = true ↔ o ∈ logical := by
  cases o <;> decide

theorem isComparison_iff {o : Operator} : o.isComparison = true ↔ o ∈ comparisons := by
  cases o <;> decide

theorem isAdditive_iff {o : Operator} : Parse.isAdditive o = true ↔ o ∈ additive := by
  cases o <;> decide

theorem isMultiplicative_iff {o : Operator} :
    Parse.isMultiplicative o = true ↔ o ∈ multiplicative := by
  cases o <;> decide

theorem isPrefix_iff {o : Operator} : o.isPrefix = true ↔ o = .plus ∨ o ∈ negations := by
  cases o <;> decide

end Operator

namespace Derives

open Grammar

variable {w : List Token} {t : Tree} {o : Operator}

/-- A prefix before a power, as the parser builds it. -/
theorem factor_prefixed (ho : o.isPrefix = true) (h : Derives .power w t) :
    Derives .factor (.op o :: w) (Parse.applyPrefix o t) := by
  rcases Operator.isPrefix_iff.1 ho with rfl | hn
  · exact .factorPlus h
  · have hne : o ≠ .plus := by rintro rfl; simp [negations] at hn
    simpa [Parse.applyPrefix, hne] using Derives.factorNegated hn h

/-- A prefix before an atom, as the parser builds it. -/
theorem exponent_prefixed (ho : o.isPrefix = true) (h : Derives .atom w t) :
    Derives .exponent (.op o :: w) (Parse.applyPrefix o t) := by
  rcases Operator.isPrefix_iff.1 ho with rfl | hn
  · exact .exponentPlus h
  · have hne : o ≠ .plus := by rintro rfl; simp [negations] at hn
    simpa [Parse.applyPrefix, hne] using Derives.exponentNegated hn h

end Derives

namespace Parse

theorem applyPrefix_of_mem_negations {o : Operator} {t : Tree} (ho : o ∈ Grammar.negations) :
    applyPrefix o t = .unary o t := by
  simp only [Grammar.negations, List.mem_cons, List.not_mem_nil, or_false] at ho
  rcases ho with rfl | rfl <;> rfl

/-- A mapped result is a tree exactly when the original is. -/
theorem map_eq_ok {f : Tree → Tree} {res : Except Fault Tree} {t : Tree}
    (h : res.map f = .ok t) : ∃ t', res = .ok t' ∧ t = f t' := by
  cases res with
  | error e => cases h
  | ok t' => exact ⟨t', rfl, (Except.ok.inj h).symm⟩

/-! ## Soundness -/

/-- The lexemes `ls` start with a sentence of `p` standing for `t`, and `rest` follows it. -/
def Spans (p : Phrase) (t : Tree) (ls rest : List Lexeme) : Prop :=
  ∃ pre, ls = pre ++ rest ∧ Derives p (pre.map Lexeme.token) t

/-! Each branch of `run` puts a sentence together in one of these shapes. -/

namespace Spans

variable {p p₁ p₂ : Phrase} {t t₁ t₂ : Tree} {ls rest r r' : List Lexeme}
  {q : Operator → Bool} {o : Operator}

/-- One lexeme whose token is a sentence. -/
theorem single {l : Lexeme} (d : Derives p [l.token] t) : Spans p t (l :: r) r :=
  ⟨[l], rfl, d⟩

/-- A sentence of one phrase that is also a sentence of another. -/
theorem wrap (h : Spans p₁ t₁ ls rest) (mk : ∀ {w}, Derives p₁ w t₁ → Derives p w t) :
    Spans p t ls rest := by
  obtain ⟨pre, rfl, d⟩ := h
  exact ⟨pre, rfl, mk d⟩

/-- Two sentences, one after the other. -/
theorem append (h₁ : Spans p₁ t₁ ls rest) (h₂ : Spans p₂ t₂ rest r')
    (mk : ∀ {w₁ w₂}, Derives p₁ w₁ t₁ → Derives p₂ w₂ t₂ → Derives p (w₁ ++ w₂) t) :
    Spans p t ls r' := by
  obtain ⟨pre₁, rfl, d₁⟩ := h₁
  obtain ⟨pre₂, rfl, d₂⟩ := h₂
  exact ⟨pre₁ ++ pre₂, by simp, by simpa using mk d₁ d₂⟩

/-- An operator found ahead, then a sentence. -/
theorem prefixed {hr : r.length < ls.length} (hop : operatorAhead q ls = some (o, ⟨r, hr⟩))
    (h : Spans p₁ t₁ r r')
    (mk : ∀ {w}, q o = true → Derives p₁ w t₁ → Derives p (.op o :: w) t) :
    Spans p t ls r' := by
  obtain ⟨l, rfl, hl, ho⟩ := operatorAhead_eq_some hop
  obtain ⟨pre, rfl, d⟩ := h
  exact ⟨l :: pre, rfl, by simpa [hl] using mk ho d⟩

/-- A sentence, an operator found ahead after it, and a second sentence. -/
theorem binary {hr : r.length < rest.length} (h₁ : Spans p₁ t₁ ls rest)
    (hop : operatorAhead q rest = some (o, ⟨r, hr⟩)) (h₂ : Spans p₂ t₂ r r')
    (mk : ∀ {w₁ w₂}, q o = true → Derives p₁ w₁ t₁ → Derives p₂ w₂ t₂ →
      Derives p (w₁ ++ .op o :: w₂) t) :
    Spans p t ls r' := by
  obtain ⟨pre₁, rfl, d₁⟩ := h₁
  obtain ⟨l, rfl, hl, ho⟩ := operatorAhead_eq_some hop
  obtain ⟨pre₂, rfl, d₂⟩ := h₂
  exact ⟨pre₁ ++ l :: pre₂, by simp, by simpa [hl] using mk ho d₁ d₂⟩

/-- An operator found ahead, then two sentences. -/
theorem step {hr : r.length < ls.length} (hop : operatorAhead q ls = some (o, ⟨r, hr⟩))
    (h₁ : Spans p₁ t₁ r rest) (h₂ : Spans p₂ t₂ rest r')
    (mk : ∀ {w₁ w₂}, q o = true → Derives p₁ w₁ t₁ → Derives p₂ w₂ t₂ →
      Derives p (.op o :: w₁ ++ w₂) t) :
    Spans p t ls r' := by
  obtain ⟨l, rfl, hl, ho⟩ := operatorAhead_eq_some hop
  obtain ⟨pre₁, rfl, d₁⟩ := h₁
  obtain ⟨pre₂, rfl, d₂⟩ := h₂
  exact ⟨l :: pre₁ ++ pre₂, by simp, by simpa [hl] using mk ho d₁ d₂⟩

end Spans

/-- Whatever a level reads is a sentence of its phrase, followed by the lexemes it leaves. -/
theorem derives_of_run {limit : Nat} {lv : Level} {depth : Nat} {ls : List Lexeme} :
    ∀ (p : Phrase) (t : Tree) (rest : List Lexeme), p.level = lv →
      (run limit lv depth ls).1 = (.ok t, rest) → Spans p t ls rest := by
  fun_induction run limit lv depth ls with
  | case1 | case11 | case16 | case18 | case20 | case30 | case31 | case32 | case33 | case34
    | case35 | case36 | case37 => intro _ _ _ _ h; cases h
  | case4 _ _ _ hnot _ | case7 _ _ hnot _ | case9 _ _ hnot _ | case14 _ _ hnot _
    | case24 _ _ hnot _ =>
    -- the first part gave no tree, and the level gives what it gave
    intro _ t rest _ h
    obtain ⟨_, he⟩ := run_eq_mk h
    exact (hnot t rest _ he).elim
  | case2 depth ls _ left rest _ hsub o r _ hop res r' _ hsub' ih₁ ih₂ =>
    -- a comparison, a logical operator and a right side
    intro p t rest' hp h
    cases p <;> cases hp
    obtain ⟨right, rfl, rfl⟩ := map_eq_ok (Prod.mk.inj h).1
    cases (Prod.mk.inj h).2
    exact .binary (ih₁ .comparison left rest rfl (by rw [hsub])) hop
      (ih₂ .expression right r' rfl (by rw [hsub']))
      fun ho d₁ d₂ => .logical d₁ (Operator.isLogical_iff.1 ho) d₂
  | case3 depth ls _ left rest _ hsub _ ih =>
    intro p t rest' hp h
    cases p <;> cases hp
    cases h
    exact .wrap (ih .comparison left rest rfl (by rw [hsub])) fun d => .expression d
  | case5 depth ls left rest _ hsub o r _ hop res r' _ hsub' ih₁ ih₂ =>
    -- a sum, a comparison operator and a second sum
    intro p t rest' hp h
    cases p <;> cases hp
    obtain ⟨right, rfl, rfl⟩ := map_eq_ok (Prod.mk.inj h).1
    cases (Prod.mk.inj h).2
    exact .binary (ih₁ .sum left rest rfl (by rw [hsub])) hop
      (ih₂ .sum right r' rfl (by rw [hsub']))
      fun ho d₁ d₂ => .compare d₁ (Operator.isComparison_iff.1 ho) d₂
  | case6 depth ls left rest _ hsub _ ih =>
    intro p t rest' hp h
    cases p <;> cases hp
    cases h
    exact .wrap (ih .sum left rest rfl (by rw [hsub])) fun d => .comparison d
  | case8 depth ls left rest _ hsub o _ hsub' ih₁ ih₂ =>
    -- a product and the rest of the sum
    intro p t rest' hp h
    cases p <;> cases hp
    exact .append (ih₁ .product left rest rfl (by rw [hsub]))
      (ih₂ (.sumRest left) t rest' rfl (by rw [hsub']; exact h)) fun d₁ d₂ => .sum d₁ d₂
  | case10 depth ls acc o r _ hop right r' _ hsub o' _ hsub' ih₁ ih₂ =>
    -- one more `+` or `-` and a product
    intro p t rest' hp h
    cases p <;> cases hp
    exact .step hop (ih₁ .product right r' rfl (by rw [hsub]))
      (ih₂ (.sumRest (.binary o acc right)) t rest' rfl (by rw [hsub']; exact h))
      fun ho d₁ d₂ => .sumStep (Operator.isAdditive_iff.1 ho) d₁ d₂
  | case12 depth ls acc _ =>
    intro p t rest' hp h
    cases p <;> cases hp
    cases h
    exact ⟨[], rfl, .sumEnd⟩
  | case13 depth ls left rest _ hsub o _ hsub' ih₁ ih₂ =>
    -- a factor and the rest of the product
    intro p t rest' hp h
    cases p <;> cases hp
    exact .append (ih₁ .factor left rest rfl (by rw [hsub]))
      (ih₂ (.productRest left) t rest' rfl (by rw [hsub']; exact h)) fun d₁ d₂ => .product d₁ d₂
  | case15 depth ls acc o r _ hop right r' _ hsub o' _ hsub' ih₁ ih₂ =>
    -- one more `*`, `/` or `%` and a factor
    intro p t rest' hp h
    cases p <;> cases hp
    exact .step hop (ih₁ .factor right r' rfl (by rw [hsub]))
      (ih₂ (.productRest (.binary o acc right)) t rest' rfl (by rw [hsub']; exact h))
      fun ho d₁ d₂ => .productStep (Operator.isMultiplicative_iff.1 ho) d₁ d₂
  | case17 depth ls acc _ =>
    intro p t rest' hp h
    cases p <;> cases hp
    cases h
    exact ⟨[], rfl, .productEnd⟩
  | case19 depth ls inner o r _ hop hpre _ res r' _ hsub ih =>
    -- a prefix and the operand after it
    intro p t rest' hp h
    obtain ⟨t', rfl, rfl⟩ := map_eq_ok (Prod.mk.inj h).1
    cases (Prod.mk.inj h).2
    cases p <;> cases hp
    · exact .prefixed hop (ih .power t' r' rfl (by rw [hsub])) fun _ d => d.factor_prefixed hpre
    · exact .prefixed hop (ih .atom t' r' rfl (by rw [hsub])) fun _ d => d.exponent_prefixed hpre
  | case21 depth ls inner _ ih =>
    -- no prefix: the operand alone
    intro p t rest' hp h
    cases p <;> cases hp
    · exact .wrap (ih .power t rest' rfl h) fun d => .factor d
    · exact .wrap (ih .atom t rest' rfl h) fun d => .exponent d
  | case22 depth ls base rest _ hsub o r _ hop res r' _ hsub' ih₁ ih₂ =>
    -- an atom, `^` and an exponent
    intro p t rest' hp h
    cases p <;> cases hp
    obtain ⟨e, rfl, rfl⟩ := map_eq_ok (Prod.mk.inj h).1
    cases (Prod.mk.inj h).2
    exact .binary (ih₁ .atom base rest rfl (by rw [hsub])) hop
      (ih₂ .exponent e r' rfl (by rw [hsub'])) fun ho d₁ d₂ => by
        obtain rfl : o = .power := by simpa using ho
        exact .raise d₁ d₂
  | case23 depth ls base rest _ hsub _ ih =>
    intro p t rest' hp h
    cases p <;> cases hp
    cases h
    exact .wrap (ih .atom base rest rfl (by rw [hsub])) fun d => .power d
  | case25 depth l r x hl =>
    intro p t rest' hp h
    cases p <;> cases hp
    cases h
    exact .single (by rw [hl]; exact .number x)
  | case26 depth l r s hl =>
    intro p t rest' hp h
    cases p <;> cases hp
    cases h
    exact .single (by rw [hl]; exact .string s)
  | case27 depth l r b hl =>
    intro p t rest' hp h
    cases p <;> cases hp
    cases h
    exact .single (by rw [hl]; exact .boolean b)
  | case28 depth l r name hl =>
    intro p t rest' hp h
    cases p <;> cases hp
    cases h
    exact .single (by rw [hl]; exact .symbol name)
  | case29 depth l r hl e l' r' _ hsub hl' ih =>
    -- a bracket, an expression and the closing bracket
    intro p t rest' hp h
    cases p <;> cases hp
    cases h
    obtain ⟨pre, hr, d⟩ := ih .expression e (l' :: r') rfl (by rw [hsub])
    subst hr
    refine ⟨l :: pre ++ [l'], by simp, ?_⟩
    simpa [hl, hl'] using Derives.paren d

/-! ## Completeness -/

section Completeness

open Grammar

variable {limit : Nat}

/-- Lexemes whose tokens are a sentence, an operator and a second sentence split there. -/
theorem map_token_eq_append_op {pre : List Lexeme} {w₁ w₂ : List Token} {o : Operator}
    (h : pre.map Lexeme.token = w₁ ++ .op o :: w₂) :
    ∃ pre₁ l pre₂, pre = pre₁ ++ l :: pre₂ ∧ pre₁.map Lexeme.token = w₁ ∧
      l.token = .op o ∧ pre₂.map Lexeme.token = w₂ := by
  obtain ⟨pre₁, rest, rfl, h₁, h₂⟩ := List.map_eq_append_iff.1 h
  obtain ⟨l, pre₂, rfl, hl, h₃⟩ := List.map_eq_cons_iff.1 h₂
  exact ⟨pre₁, l, pre₂, rfl, h₁, hl, h₃⟩

/-- Where a sentence of `q` ends, no operator that goes on with `q` is found. -/
theorem operatorAhead_of_endsBefore {q : Phrase} {p : Operator → Bool} {rest : List Lexeme}
    (hp : ∀ o, p o = true → o ∈ q.continuations) (h : q.EndsBefore (rest.map Lexeme.token)) :
    operatorAhead p rest = none := by
  apply operatorAhead_eq_none
  intro l r o hr hl
  subst hr
  simp only [List.map_cons, hl, Phrase.endsBefore_op] at h
  cases hpo : p o
  · rfl
  · exact absurd (hp o hpo) h

/-- No operator is found in front of a sentence that starts with an operand. -/
theorem operatorAhead_of_operand {p : Operator → Bool} {pre rest : List Lexeme}
    {tk : Token} {w : List Token} (hw : pre.map Lexeme.token = tk :: w)
    (htk : ∀ o, tk ≠ .op o) : operatorAhead p (pre ++ rest) = none := by
  obtain ⟨l, pre', rfl, hl, -⟩ := List.map_eq_cons_iff.1 hw
  apply operatorAhead_eq_none
  intro l' r o he hl'
  cases (List.cons.inj he).1
  exact absurd (hl ▸ hl') (htk o)

/-! Each way a sentence is put together fixes how the lexemes split and which operator the
level finds ahead. -/

/-- A sentence with an operator that `q` accepts between two parts, where the first part, of
phrase `p₁`, cannot go on with the operator: the lexemes split at the operator, the first part
ends there, and the operator is found ahead of the second part. -/
theorem split_binary (rest : List Lexeme) (p₁ : Phrase) {q : Operator → Bool}
    {pre : List Lexeme} {w₁ w₂ : List Token} {o : Operator}
    (hw : pre.map Lexeme.token = w₁ ++ .op o :: w₂) (ho : q o = true)
    (hend : o ∉ p₁.continuations) :
    ∃ pre₁ l pre₂, pre = pre₁ ++ l :: pre₂ ∧ pre₁.map Lexeme.token = w₁ ∧
      pre₂.map Lexeme.token = w₂ ∧ p₁.EndsBefore ((l :: (pre₂ ++ rest)).map Lexeme.token) ∧
      ∃ hr, operatorAhead q (l :: (pre₂ ++ rest)) = some (o, ⟨pre₂ ++ rest, hr⟩) := by
  obtain ⟨pre₁, l, pre₂, rfl, hw₁, hl, hw₂⟩ := map_token_eq_append_op hw
  refine ⟨pre₁, l, pre₂, rfl, hw₁, hw₂, ?_, operatorAhead_of_op hl ho⟩
  simpa only [List.map_cons, hl, Phrase.endsBefore_op] using hend

/-- A sentence that starts with an operator that `q` accepts, followed by two parts: the
lexemes split after the operator and between the parts, and the operator is found ahead. -/
theorem split_step (rest : List Lexeme) {q : Operator → Bool} {pre : List Lexeme}
    {w₁ w₂ : List Token} {o : Operator} (hw : pre.map Lexeme.token = .op o :: w₁ ++ w₂)
    (ho : q o = true) :
    ∃ l pre₁ pre₂, pre = l :: (pre₁ ++ pre₂) ∧ pre₁.map Lexeme.token = w₁ ∧
      pre₂.map Lexeme.token = w₂ ∧
      ∃ hr, operatorAhead q (l :: (pre₁ ++ pre₂ ++ rest)) =
        some (o, ⟨pre₁ ++ pre₂ ++ rest, hr⟩) := by
  obtain ⟨l, pre', rfl, hl, hw'⟩ := List.map_eq_cons_iff.1 hw
  obtain ⟨pre₁, pre₂, rfl, hw₁, hw₂⟩ := List.map_eq_append_iff.1 hw'
  exact ⟨l, pre₁, pre₂, rfl, hw₁, hw₂, operatorAhead_of_op hl ho⟩

/-- A prefix before an operand that the level inside reads whole, one level deeper: the signed
level reads both, when the limit leaves room for the operand. -/
theorem run_signed_prefix {inner : Level} {depth : Nat} {pre rest : List Lexeme} {o : Operator}
    {w : List Token} {t : Tree} (hw : pre.map Lexeme.token = .op o :: w) (ho : o.isPrefix = true)
    (hne : w ≠ []) (hb : depth + (w.length + 1) ≤ limit + 1)
    (h : ∀ {pre' : List Lexeme}, pre'.map Lexeme.token = w →
      (run limit inner (depth + 1) (pre' ++ rest)).1 = (.ok t, rest)) :
    (run limit (.signed inner) depth (pre ++ rest)).1 = (.ok (applyPrefix o t), rest) := by
  obtain ⟨l, pre', rfl, hl, hw'⟩ := List.map_eq_cons_iff.1 hw
  have hlen := List.length_pos_iff.2 hne
  obtain ⟨_, hop⟩ := operatorAhead_of_op (p := fun _ => true) (r := pre' ++ rest) hl rfl
  rw [run_signed, List.cons_append, hop]
  dsimp only
  rw [if_pos ho, if_neg (by omega), mapTree, h hw']
  rfl

/-- A sentence of a phrase, followed by lexemes that cannot go on with it, is read whole,
provided the limit leaves room for its nesting: every level it opens beyond the first
follows a token of the sentence. -/
theorem run_of_derives {p : Phrase} {w : List Token} {t : Tree} (hd : Derives p w t) :
    ∀ {depth : Nat} {pre rest : List Lexeme}, pre.map Lexeme.token = w →
      p.EndsBefore (rest.map Lexeme.token) → depth + w.length + p.opens ≤ limit + 1 →
      (run limit p.level depth (pre ++ rest)).1 = (.ok t, rest) := by
  induction hd with
  | expression d ih =>
    intro depth pre rest hw hs hb
    dsimp only [Phrase.level, Phrase.opens] at *
    have hne := List.length_pos_iff.2 (d.ne_nil rfl)
    rw [run_expression, if_neg (by omega),
      ih hw (hs.mono (by simp [Phrase.continuations])) (by omega)]
    rw [andThen_ok, operatorAhead_of_endsBefore (fun o ho => by
      simp [Phrase.continuations, Operator.isLogical_iff.1 ho]) hs]
  | logical d₁ ho d₂ ih₁ ih₂ =>
    intro depth pre rest hw hs hb
    dsimp only [Phrase.level, Phrase.opens] at *
    obtain ⟨pre₁, l, pre₂, rfl, hw₁, hw₂, hs₁, _, hop⟩ := split_binary rest .comparison hw
      (Operator.isLogical_iff.2 ho) (by revert ho; cases ‹Operator› <;> decide)
    simp only [List.length_append, List.length_cons] at hb
    rw [run_expression, if_neg (by omega), List.append_assoc, List.cons_append,
      ih₁ hw₁ hs₁ (by omega), andThen_ok, hop]
    simp only [mapTree]
    rw [ih₂ hw₂ hs (by omega)]
    rfl
  | comparison d ih =>
    intro depth pre rest hw hs hb
    dsimp only [Phrase.level, Phrase.opens] at *
    rw [run_comparison,
      ih hw (hs.mono (by simp [Phrase.continuations])) hb]
    rw [andThen_ok, operatorAhead_of_endsBefore (fun o ho => by
      simp [Phrase.continuations, Operator.isComparison_iff.1 ho]) hs]
  | compare d₁ ho d₂ ih₁ ih₂ =>
    intro depth pre rest hw hs hb
    dsimp only [Phrase.level, Phrase.opens] at *
    obtain ⟨pre₁, l, pre₂, rfl, hw₁, hw₂, hs₁, _, hop⟩ := split_binary rest .sum hw
      (Operator.isComparison_iff.2 ho) (by revert ho; cases ‹Operator› <;> decide)
    simp only [List.length_append, List.length_cons] at hb
    rw [run_comparison, List.append_assoc, List.cons_append,
      ih₁ hw₁ hs₁ (by omega), andThen_ok, hop]
    simp only [mapTree]
    rw [ih₂ hw₂ (hs.mono (by simp [Phrase.continuations])) (by omega)]
    rfl
  | sum d₁ d₂ ih₁ ih₂ =>
    intro depth pre rest hw hs hb
    dsimp only [Phrase.level, Phrase.opens] at *
    obtain ⟨pre₁, pre₂, rfl, hw₁, hw₂⟩ := List.map_eq_append_iff.1 hw
    simp only [List.length_append] at hb
    have hs₁ : Phrase.product.EndsBefore ((pre₂ ++ rest).map Lexeme.token) := by
      rw [List.map_append, hw₂]
      exact d₂.endsBefore_sumRest hs
    rw [run_sum, List.append_assoc, ih₁ hw₁ hs₁ (by omega),
      andThen_ok]
    exact ih₂ hw₂ (hs.mono (by simp [Phrase.continuations])) (by omega)
  | sumEnd =>
    intro depth pre rest hw hs hb
    dsimp only [Phrase.level, Phrase.opens] at *
    rw [List.map_eq_nil_iff.1 hw, List.nil_append, run_sumTail,
      operatorAhead_of_endsBefore (fun o ho => by
        simp [Phrase.continuations, Operator.isAdditive_iff.1 ho]) hs]
  | sumStep ho d₁ d₂ ih₁ ih₂ =>
    intro depth pre rest hw hs hb
    dsimp only [Phrase.level, Phrase.opens] at *
    obtain ⟨l, pre₁, pre₂, rfl, hw₁, hw₂, _, hop⟩ :=
      split_step rest hw (Operator.isAdditive_iff.2 ho)
    simp only [List.length_append, List.length_cons] at hb
    have hs₁ : Phrase.product.EndsBefore ((pre₂ ++ rest).map Lexeme.token) := by
      rw [List.map_append, hw₂]
      exact d₂.endsBefore_sumRest hs
    rw [run_sumTail, List.cons_append, hop]
    dsimp only
    rw [List.append_assoc, ih₁ hw₁ hs₁ (by omega), andThen_ok]
    exact ih₂ hw₂ hs (by omega)
  | product d₁ d₂ ih₁ ih₂ =>
    intro depth pre rest hw hs hb
    dsimp only [Phrase.level, Phrase.opens] at *
    obtain ⟨pre₁, pre₂, rfl, hw₁, hw₂⟩ := List.map_eq_append_iff.1 hw
    simp only [List.length_append] at hb
    have hs₁ : Phrase.factor.EndsBefore ((pre₂ ++ rest).map Lexeme.token) := by
      rw [List.map_append, hw₂]
      exact d₂.endsBefore_productRest hs
    rw [run_product, List.append_assoc,
      ih₁ hw₁ hs₁ (by omega), andThen_ok]
    exact ih₂ hw₂ (hs.mono (by simp [Phrase.continuations])) (by omega)
  | productEnd =>
    intro depth pre rest hw hs hb
    dsimp only [Phrase.level, Phrase.opens] at *
    rw [List.map_eq_nil_iff.1 hw, List.nil_append, run_productTail,
      operatorAhead_of_endsBefore (fun o ho => by
        simp [Phrase.continuations, Operator.isMultiplicative_iff.1 ho]) hs]
  | productStep ho d₁ d₂ ih₁ ih₂ =>
    intro depth pre rest hw hs hb
    dsimp only [Phrase.level, Phrase.opens] at *
    obtain ⟨l, pre₁, pre₂, rfl, hw₁, hw₂, _, hop⟩ :=
      split_step rest hw (Operator.isMultiplicative_iff.2 ho)
    simp only [List.length_append, List.length_cons] at hb
    have hs₁ : Phrase.factor.EndsBefore ((pre₂ ++ rest).map Lexeme.token) := by
      rw [List.map_append, hw₂]
      exact d₂.endsBefore_productRest hs
    rw [run_productTail, List.cons_append, hop]
    dsimp only
    rw [List.append_assoc, ih₁ hw₁ hs₁ (by omega), andThen_ok]
    exact ih₂ hw₂ hs (by omega)
  | factor d ih =>
    intro depth pre rest hw hs hb
    dsimp only [Phrase.level, Phrase.opens] at *
    obtain ⟨tk, w', hw', htk⟩ := d.head_operand (.inl rfl)
    rw [run_signed, operatorAhead_of_operand (hw.trans hw') htk]
    exact ih hw (hs.mono (by simp [Phrase.continuations])) hb
  | factorPlus d ih =>
    intro depth pre rest hw hs hb
    dsimp only [Phrase.level, Phrase.opens] at *
    simp only [List.length_cons] at hb
    exact run_signed_prefix hw (Operator.isPrefix_iff.2 (.inl rfl)) (d.ne_nil rfl) (by omega)
      fun hw' => ih hw' (hs.mono (by simp [Phrase.continuations])) (by omega)
  | factorNegated ho d ih =>
    intro depth pre rest hw hs hb
    dsimp only [Phrase.level, Phrase.opens] at *
    simp only [List.length_cons] at hb
    rw [← applyPrefix_of_mem_negations ho]
    exact run_signed_prefix hw (Operator.isPrefix_iff.2 (.inr ho)) (d.ne_nil rfl) (by omega)
      fun hw' => ih hw' (hs.mono (by simp [Phrase.continuations])) (by omega)
  | power d ih =>
    intro depth pre rest hw hs hb
    dsimp only [Phrase.level, Phrase.opens] at *
    rw [run_power, ih hw (.of_continuations_nil rfl) hb,
      andThen_ok, operatorAhead_of_endsBefore (fun o ho => by
        simp [Phrase.continuations, show o = .power by simpa using ho]) hs]
  | raise d₁ d₂ ih₁ ih₂ =>
    intro depth pre rest hw hs hb
    dsimp only [Phrase.level, Phrase.opens] at *
    obtain ⟨pre₁, l, pre₂, rfl, hw₁, hw₂, hs₁, _, hop⟩ :=
      split_binary rest .atom (q := (· == .power)) hw rfl (by simp [Phrase.continuations])
    simp only [List.length_append, List.length_cons] at hb
    rw [run_power, List.append_assoc, List.cons_append, ih₁ hw₁ hs₁ (by omega), andThen_ok, hop]
    simp only [mapTree]
    rw [ih₂ hw₂ (.of_continuations_nil rfl) (by omega)]
    rfl
  | exponent d ih =>
    intro depth pre rest hw hs hb
    dsimp only [Phrase.level, Phrase.opens] at *
    obtain ⟨tk, w', hw', htk⟩ := d.head_operand (.inr rfl)
    rw [run_signed, operatorAhead_of_operand (hw.trans hw') htk]
    exact ih hw (.of_continuations_nil rfl) hb
  | exponentPlus d ih =>
    intro depth pre rest hw hs hb
    dsimp only [Phrase.level, Phrase.opens] at *
    simp only [List.length_cons] at hb
    exact run_signed_prefix hw (Operator.isPrefix_iff.2 (.inl rfl)) (d.ne_nil rfl) (by omega)
      fun hw' => ih hw' (.of_continuations_nil rfl) (by omega)
  | exponentNegated ho d ih =>
    intro depth pre rest hw hs hb
    dsimp only [Phrase.level, Phrase.opens] at *
    simp only [List.length_cons] at hb
    rw [← applyPrefix_of_mem_negations ho]
    exact run_signed_prefix hw (Operator.isPrefix_iff.2 (.inr ho)) (d.ne_nil rfl) (by omega)
      fun hw' => ih hw' (.of_continuations_nil rfl) (by omega)
  | number x | string x | boolean x | symbol x =>
    intro depth pre rest hw hs hb
    dsimp only [Phrase.level, Phrase.opens] at *
    obtain ⟨l, rfl, hl⟩ := List.map_eq_singleton_iff.1 hw
    rw [List.singleton_append, run_atom]
    simp [hl]
  | paren d ih =>
    intro depth pre rest hw hs hb
    dsimp only [Phrase.level, Phrase.opens] at *
    obtain ⟨l, q, rfl, hl, hq⟩ := List.map_eq_cons_iff.1 hw
    obtain ⟨pre', q', rfl, hw', hq'⟩ := List.map_eq_append_iff.1 hq
    obtain ⟨l', rfl, hl'⟩ := List.map_eq_singleton_iff.1 hq'
    simp only [List.length_cons, List.length_append, List.length_nil] at hb
    rw [run_atom, List.cons_append, List.append_assoc, List.singleton_append]
    simp only [hl]
    rw [@ih _ _ (l' :: rest) hw' (by simp [hl', Phrase.EndsBefore]) (by omega), closeParen]
    simp [hl']

end Completeness

end Parse

/-- The grammar is unambiguous: a sentence of a phrase stands for one tree. -/
theorem Derives.unique {p : Phrase} {w : List Token} {t₁ t₂ : Tree} (h₁ : Derives p w t₁)
    (h₂ : Derives p w t₂) : t₁ = t₂ := by
  -- read both sentences from the same lexemes, with room for any nesting
  let pre : List Lexeme := w.map fun tk => ⟨tk, 0, 0, [], []⟩
  have hw : pre.map Lexeme.token = w := by simp [pre, Function.comp_def]
  have hb : 0 + w.length + p.opens ≤ (w.length + p.opens) + 1 := by omega
  have e₁ : (Parse.run _ p.level 0 (pre ++ [])).1 = (.ok t₁, []) :=
    Parse.run_of_derives h₁ hw trivial hb
  have e₂ : (Parse.run _ p.level 0 (pre ++ [])).1 = (.ok t₂, []) :=
    Parse.run_of_derives h₂ hw trivial hb
  rw [e₁] at e₂
  exact Except.ok.inj (Prod.mk.inj e₂).1

/-! ## Whole texts -/

/-- The greatest nesting limit a reader can be given: the limit is an unsigned 64-bit count. -/
def limitMax : Nat := 2 ^ 64 - 1

namespace Tree

/-- A whole text reads as a tree when its expression does and what follows it is the end
of the text. -/
theorem readAll_result_eq_ok {limit : Nat} {ls : List Lexeme} {t : Tree} :
    (readAll limit ls).result = .ok t ↔
      ∃ rest, (Parse.run limit .expression 0 ls).1 = (.ok t, rest) ∧
        ∀ l r, rest = l :: r → l.token = .endOfText := by
  unfold readAll readLevel
  rcases (Parse.run limit .expression 0 ls).1 with ⟨_ | t', _ | ⟨⟨tk, start, stop, src, r⟩, rest⟩⟩
  · simp
  · simp
  · simp [and_assoc]
  · cases tk <;> simp [and_assoc]

end Tree

/-- Whatever a whole text reads as, at any limit, is the tree of a sentence followed by the
end of the text. -/
theorem derives_of_readAll {limit : Nat} {s : String} {t : Tree}
    (h : (Tree.readAll limit (Lexeme.ofText s)).result = .ok t) :
    ∃ w, (Lexeme.ofText s).map Lexeme.token = w ++ [.endOfText] ∧
      Derives .expression w t := by
  obtain ⟨rest, hrun, hend⟩ := Tree.readAll_result_eq_ok.1 h
  obtain ⟨pre, hls, d⟩ := Parse.derives_of_run .expression t rest rfl hrun
  match rest, hend with
  | [], _ =>
    -- the whole text would be a sentence, its final lexeme included
    obtain ⟨pre', l, he, hl, -⟩ := Lexeme.ofText_eq_append_final s
    rw [List.append_nil] at hls
    have := d.not_final l.token (by rw [← hls, he]; simp)
    rw [hl] at this
    cases this
  | l :: r, hend =>
    have hl := hend l r rfl
    cases Lexeme.eq_nil_of_final hls (by simp [hl, Token.isFinal])
    exact ⟨_, by rw [hls]; simp [hl], d⟩

/-- A sentence followed by the end of the text reads as its tree at every limit that leaves
room for one level per token of the sentence. -/
theorem readAll_of_derives_le {limit : Nat} {s : String} {w : List Token} {t : Tree}
    (hw : (Lexeme.ofText s).map Lexeme.token = w ++ [.endOfText])
    (d : Derives .expression w t) (hl : w.length ≤ limit) :
    (Tree.readAll limit (Lexeme.ofText s)).result = .ok t := by
  obtain ⟨pre, e, hls, hpre, he⟩ := List.map_eq_append_iff.1 hw
  obtain ⟨lE, rfl, hlE⟩ := List.map_eq_singleton_iff.1 he
  have hwl : w.length = pre.length := by rw [← hpre, List.length_map]
  refine Tree.readAll_result_eq_ok.2 ⟨[lE], ?_, fun l r hr => by cases hr; exact hlE⟩
  rw [hls]
  exact Parse.run_of_derives d hpre (by simp [hlE, Phrase.EndsBefore])
    (by simp only [Phrase.opens]; omega)

/-- A sentence followed by the end of the text reads as its tree with the greatest limit, when
the text is no longer than the limit. -/
theorem readAll_of_derives {s : String} {w : List Token} {t : Tree} (hs : s.length ≤ limitMax)
    (hw : (Lexeme.ofText s).map Lexeme.token = w ++ [.endOfText])
    (d : Derives .expression w t) :
    (Tree.readAll limitMax (Lexeme.ofText s)).result = .ok t := by
  refine readAll_of_derives_le hw d ?_
  -- the sentence has one token less than the text has lexemes, and those are few enough
  have hlen := congrArg List.length hw
  have := Lexeme.length_ofText_le s
  simp only [List.length_map, List.length_append, List.length_singleton] at hlen
  omega

/-- With the greatest limit, a text reads as a tree exactly when its tokens are a sentence of
`expression` standing for that tree, followed by the end of the text. No text that a program
can hold has as many characters as the limit. -/
theorem readAll_ok_iff {s : String} {t : Tree} (hs : s.length ≤ limitMax) :
    (Tree.readAll limitMax (Lexeme.ofText s)).result = .ok t ↔
      ∃ w, (Lexeme.ofText s).map Lexeme.token = w ++ [.endOfText] ∧
        Derives .expression w t :=
  ⟨derives_of_readAll, fun ⟨_, hw, d⟩ => readAll_of_derives hs hw d⟩

/-- The law at the text `a`, a symbol. -/
theorem readAll_ok_iff_symbol :
    "a".length ≤ limitMax ∧
      ((Tree.readAll limitMax (Lexeme.ofText "a")).result = .ok (.symbol "a") ↔
        ∃ w, (Lexeme.ofText "a").map Lexeme.token = w ++ [.endOfText] ∧
          Derives .expression w (.symbol "a")) :=
  ⟨by decide, readAll_ok_iff (by decide)⟩

end ExprLang
