import ExprLang.Proofs.Counter
import ExprLang.Proofs.Reading
import ExprLang.Expression

/-!
# The nesting limit is a threshold at the deepest level

`Parse.run limit` counts the levels it opens, one for each entry into `expression` and one for
each prefix, and refuses to open a level when `limit` are open, with the fault `tooDeep limit`.
The counted reading `Parse.runCounted` records every `enter` with the number of levels open at
the call. The *nesting* of a text (`Parse.nesting`) is the deepest level that its reading at
the greatest limit enters: one more than the greatest number of levels open at an `enter`.
That number is the threshold of the limit (`nesting_threshold`):

> for every text, `n = nesting (Lexeme.ofText s) ≥ 1`; reading it whole with a limit `d < n`
> gives `tooDeep d`, and with a limit `n ≤ d ≤ limitMax` gives exactly what the greatest limit
> `limitMax` gives. An expression made from the text (`Expression.ofText`) follows the same
> law, except that a blank text is no expression at every limit.

One relation between two counted readings carries it (`follows_runCounted`). At limits
`a ≤ b` and from the same state, the reading at `a` is the reading at `b` when every level the
reading at `b` enters is entered with fewer than `a` levels open (`Counted.Within`), and it is
refused at `a` otherwise: the two take the same branches until the reading at `a` meets an
`enter` with `a` levels open, and that refusal is passed up unchanged to the whole text.
-/

namespace ExprLang.Parse

namespace CounterCall

/-- The deepest level that a list of calls enters: one more than the greatest counter value at
an `enter`, and `0` when there is none. -/
def deepest : List CounterCall → Nat
  | [] => 0
  | .enter d :: cs => max (d + 1) (deepest cs)
  | .leave _ :: cs => deepest cs

theorem deepest_le_iff {cs : List CounterCall} {a : Nat} :
    deepest cs ≤ a ↔ ∀ d, .enter d ∈ cs → d < a := by
  induction cs with
  | nil => simp [deepest]
  | cons c cs ih =>
    cases c with
    | enter e =>
      simp only [deepest, Nat.max_le, ih, List.mem_cons, enter.injEq]
      constructor
      · rintro ⟨he, hcs⟩ d (rfl | hd)
        · omega
        · exact hcs d hd
      · intro h
        exact ⟨h e (.inl rfl), fun d hd => h d (.inr hd)⟩
    | leave e => simp [deepest, ih]

end CounterCall

namespace Counted

/-- Every level the reading enters, it enters with fewer than `limit` levels open. -/
def Within (limit : Nat) (o : Counted) : Prop :=
  ∀ d, .enter d ∈ o.calls → d < limit

theorem andThen_of_error {o : Counted} {f : Fault} (h : o.result = .error f)
    (k : Tree → List Lexeme → Nat → Counted) : o.andThen k = o := by
  simp [andThen, h]

theorem andThen_of_ok {o : Counted} {t : Tree} (h : o.result = .ok t)
    (k : Tree → List Lexeme → Nat → Counted) :
    o.andThen k = { k t o.lexemes o.depth with calls := o.calls ++ (k t o.lexemes o.depth).calls } := by
  simp [andThen, h]

/-- Between `enter` and `leave`, the levels entered are the one entered first and those of the
part inside. -/
theorem within_nest {a depth : Nat} {o : Counted} (hd : depth < a) :
    (o.nest depth).Within a ↔ o.Within a := by
  simp only [Within, nest, List.cons_append, List.mem_cons, List.mem_append,
    CounterCall.enter.injEq, reduceCtorEq, List.not_mem_nil, or_false]
  constructor
  · exact fun h d hd => h d (.inr hd)
  · rintro h d (rfl | hd)
    · exact hd
    · exact h d hd

end Counted

/-- How the counted reading `oa` at the limit `a` follows a reading `ob` at a larger limit from
the same state: it is `ob` when every level `ob` enters is entered with fewer than `a` levels
open, and it is refused at `a` otherwise. -/
structure Follows (a : Nat) (oa ob : Counted) : Prop where
  same : ob.Within a → oa = ob
  refused : ¬ ob.Within a → oa.result = .error (.tooDeep a)

namespace Follows

variable {a depth : Nat} {oa ob : Counted}

theorem leaf (res : Except Fault Tree) (ls : List Lexeme) (depth : Nat) :
    Follows a (.leaf res ls depth) (.leaf res ls depth) := by
  refine ⟨fun _ => rfl, fun h => absurd ?_ h⟩
  intro d hd
  simp [Counted.leaf] at hd

/-- A reading refused at an `enter` with at least `a` levels open follows every reading at the
larger limit that makes the same call, refused there or not. -/
theorem refusal (ha : a ≤ depth) (hb : .enter depth ∈ ob.calls) (ls : List Lexeme) :
    Follows a (.refused a depth ls) ob :=
  ⟨fun h => absurd (h depth hb) (Nat.not_lt.2 ha), fun _ => rfl⟩

theorem mapTree {f : Tree → Tree} (h : Follows a oa ob) :
    Follows a (oa.mapTree f) (ob.mapTree f) := by
  refine ⟨fun hw => ?_, fun hw => ?_⟩
  · rw [h.same hw]
  · simp [Counted.mapTree, h.refused hw, Except.map]

theorem closeParen (h : Follows a oa ob) : Follows a oa.closeParen ob.closeParen := by
  refine ⟨fun hw => ?_, fun hw => ?_⟩
  · rw [h.same hw]
  · simp [Counted.closeParen, h.refused hw, Parse.closeParen]

theorem nest (hd : depth < a) (h : Follows a oa ob) : Follows a (oa.nest depth) (ob.nest depth) := by
  refine ⟨fun hw => ?_, fun hw => h.refused (mt (Counted.within_nest hd).2 hw)⟩
  rw [h.same ((Counted.within_nest hd).1 hw)]

/-- Two parts in a row. If the first part at `b` enters a level at `a` or more, the first part
at `a` is refused and so is the whole; if only the second does, the first parts agree and the
second part at `a` is refused. -/
theorem andThen {ka kb : Tree → List Lexeme → Nat → Counted} (h : Follows a oa ob)
    (hk : ∀ t, ob.result = .ok t →
      Follows a (ka t ob.lexemes ob.depth) (kb t ob.lexemes ob.depth)) :
    Follows a (oa.andThen ka) (ob.andThen kb) := by
  rcases hres : ob.result with f | t
  · -- the first part fails: both readings stop where it does
    rw [Counted.andThen_of_error hres]
    refine ⟨fun hw => ?_, fun hw => ?_⟩
    · rw [h.same hw, Counted.andThen_of_error hres]
    · rw [Counted.andThen_of_error (h.refused hw)]
      exact h.refused hw
  · have hcalls : ∀ d, .enter d ∈ (ob.andThen kb).calls ↔
        .enter d ∈ ob.calls ∨ .enter d ∈ (kb t ob.lexemes ob.depth).calls := by
      intro d
      rw [Counted.andThen_of_ok hres, List.mem_append]
    refine ⟨fun hw => ?_, fun hw => ?_⟩
    · have hwb : ob.Within a := fun d hd => hw d ((hcalls d).2 (.inl hd))
      have hwk : (kb t ob.lexemes ob.depth).Within a := fun d hd => hw d ((hcalls d).2 (.inr hd))
      rw [h.same hwb, Counted.andThen_of_ok hres, Counted.andThen_of_ok hres,
        (hk t hres).same hwk]
    · by_cases hwb : ob.Within a
      · -- the first parts agree, and the second part at `b` goes to `a` or beyond
        have hwk : ¬ (kb t ob.lexemes ob.depth).Within a := fun hwk =>
          hw fun d hd => ((hcalls d).1 hd).elim (hwb d) (hwk d)
        rw [h.same hwb, Counted.andThen_of_ok hres]
        exact (hk t hres).refused hwk
      · rw [Counted.andThen_of_error (h.refused hwb)]
        exact h.refused hwb

end Follows

/-- The counted reading at a limit `a` follows the one at any larger limit `b`, at every level
and from every state. The recursion follows the reading itself, as `sim_runCounted` does; at an
`enter` the readings part ways exactly when `a ≤ depth < b`, and the reading at `b` makes the
same call there. -/
theorem follows_runCounted {a b : Nat} (hab : a ≤ b) (lv : Level) (depth : Nat)
    (ls : List Lexeme) :
    Follows a (runCounted a lv depth ls).1 (runCounted b lv depth ls).1 := by
  match lv with
  | .expression =>
    rw [runCounted_expression, runCounted_expression]
    by_cases ha : a ≤ depth
    · rw [if_pos ha]
      refine .refusal ha ?_ ls
      by_cases hb : b ≤ depth
      · rw [if_pos hb]
        simp [Counted.refused]
      · rw [if_neg hb]
        simp [Counted.nest]
    · rw [if_neg ha, if_neg (by omega)]
      refine .nest (by omega) ((follows_runCounted hab .comparison (depth + 1) ls).andThen
        fun left _ => ?_)
      have hrest := (runCounted b .comparison (depth + 1) ls).2
      rcases operatorAhead Operator.isLogical (runCounted b .comparison (depth + 1) ls).1.lexemes
        with _ | ⟨o, r, hr⟩
      · exact .leaf _ _ _
      · exact (follows_runCounted hab .expression _ r).mapTree
  | .comparison =>
    rw [runCounted_comparison, runCounted_comparison]
    refine (follows_runCounted hab .sum depth ls).andThen fun left _ => ?_
    have hrest := (runCounted b .sum depth ls).2
    rcases operatorAhead Operator.isComparison (runCounted b .sum depth ls).1.lexemes
      with _ | ⟨o, r, hr⟩
    · exact .leaf _ _ _
    · exact (follows_runCounted hab .sum _ r).mapTree
  | .sum =>
    rw [runCounted_sum, runCounted_sum]
    refine (follows_runCounted hab .product depth ls).andThen fun left _ => ?_
    have hrest := (runCounted b .product depth ls).2
    exact follows_runCounted hab (.sumTail left) _ _
  | .sumTail acc =>
    rw [runCounted_sumTail, runCounted_sumTail]
    rcases operatorAhead isAdditive ls with _ | ⟨o, r, hr⟩
    · exact .leaf _ _ _
    · refine (follows_runCounted hab .product depth r).andThen fun right _ => ?_
      have hr' := (runCounted b .product depth r).2
      exact follows_runCounted hab (.sumTail (.binary o acc right)) _ _
  | .product =>
    rw [runCounted_product, runCounted_product]
    refine (follows_runCounted hab (.signed .power) depth ls).andThen fun left _ => ?_
    have hrest := (runCounted b (.signed .power) depth ls).2
    exact follows_runCounted hab (.productTail left) _ _
  | .productTail acc =>
    rw [runCounted_productTail, runCounted_productTail]
    rcases operatorAhead isMultiplicative ls with _ | ⟨o, r, hr⟩
    · exact .leaf _ _ _
    · refine (follows_runCounted hab (.signed .power) depth r).andThen fun right _ => ?_
      have hr' := (runCounted b (.signed .power) depth r).2
      exact follows_runCounted hab (.productTail (.binary o acc right)) _ _
  | .signed inner =>
    rw [runCounted_signed, runCounted_signed]
    rcases operatorAhead (fun _ => true) ls with _ | ⟨o, r, hr⟩
    · exact follows_runCounted hab inner depth ls
    · dsimp only
      split
      · by_cases ha : a ≤ depth
        · rw [if_pos ha]
          refine .refusal ha ?_ r
          by_cases hb : b ≤ depth
          · rw [if_pos hb]
            simp [Counted.refused]
          · rw [if_neg hb]
            simp [Counted.nest]
        · rw [if_neg ha, if_neg (by omega)]
          exact .nest (by omega) (follows_runCounted hab inner (depth + 1) r).mapTree
      · exact .leaf _ _ _
  | .power =>
    rw [runCounted_power, runCounted_power]
    refine (follows_runCounted hab .atom depth ls).andThen fun base _ => ?_
    have hrest := (runCounted b .atom depth ls).2
    rcases operatorAhead (· == .power) (runCounted b .atom depth ls).1.lexemes
      with _ | ⟨o, r, hr⟩
    · exact .leaf _ _ _
    · exact (follows_runCounted hab (.signed .atom) _ r).mapTree
  | .atom =>
    rw [runCounted_atom, runCounted_atom]
    cases ls with
    | nil => exact .leaf _ _ _
    | cons l r =>
      dsimp only
      cases l.token with
      | openParen => exact (follows_runCounted hab .expression depth r).closeParen
      | _ => exact .leaf _ _ _
termination_by (ls.length, lv.rank)
decreasing_by
  all_goals
    simp only [Prod.lex_def, Level.rank, List.length_cons, true_and] at *
    omega

/-- The nesting of a list of lexemes: the deepest level that its reading at the greatest limit
enters, counting each entry into `expression` and each prefix. -/
def nesting (ls : List Lexeme) : Nat :=
  CounterCall.deepest (runCounted limitMax .expression 0 ls).1.calls

/-- Every reading of a whole text enters its first expression with no level open. -/
theorem enter_zero_mem (limit : Nat) (ls : List Lexeme) :
    .enter 0 ∈ (runCounted limit .expression 0 ls).1.calls := by
  rw [runCounted_expression]
  split
  · simp [Counted.refused]
  · simp [Counted.nest]

theorem one_le_nesting (ls : List Lexeme) : 1 ≤ nesting ls := by
  by_contra h
  have hw := CounterCall.deepest_le_iff.1 (Nat.le_of_not_lt h)
  exact Nat.lt_irrefl 0 (hw 0 (enter_zero_mem limitMax ls))

/-- No reading at the greatest limit enters a level with more than `limitMax` open. -/
theorem nesting_le (ls : List Lexeme) : nesting ls ≤ limitMax + 1 := by
  refine CounterCall.deepest_le_iff.2 fun d hd => ?_
  have hb := (sim_runCounted limitMax .expression 0 ls).bounded _ hd
  simp only [CounterCall.depth] at hb
  omega

end ExprLang.Parse

open ExprLang.Parse

namespace ExprLang.Tree

/-- A first level refused at `limit` refuses the whole text. -/
theorem readAll_of_tooDeep {limit : Nat} {ls : List Lexeme}
    (h : (run limit .expression 0 ls).1.1 = .error (.tooDeep limit)) :
    (readAll limit ls).result = .error (.tooDeep limit) := by
  unfold readAll readLevel
  rcases hrun : run limit .expression 0 ls with ⟨⟨res, rest⟩, hle⟩
  rw [hrun] at h
  dsimp only at h
  subst h
  rfl

/-- Reading a whole text depends on the limit only through the run of its first level. -/
theorem readAll_congr {a b : Nat} {ls : List Lexeme}
    (h : (run a .expression 0 ls).1 = (run b .expression 0 ls).1) :
    readAll a ls = readAll b ls := by
  unfold readAll readLevel
  rw [h]

/-- The nesting of the lexemes is the threshold of reading them whole: below it the reading is
refused, from it on it is the reading at the greatest limit. -/
theorem readAll_nesting (ls : List Lexeme) :
    1 ≤ nesting ls ∧ ∀ d,
      (d < nesting ls → (readAll d ls).result = .error (.tooDeep d)) ∧
      (nesting ls ≤ d → d ≤ limitMax → readAll d ls = readAll limitMax ls) := by
  refine ⟨one_le_nesting ls, fun d => ⟨fun hd => ?_, fun hd hdm => ?_⟩⟩
  · -- the reading at the greatest limit enters a level at `d` or deeper, so the one at `d` is
    -- refused
    have hdm : d ≤ limitMax := by
      have := nesting_le ls
      omega
    have hw : ¬ (runCounted limitMax .expression 0 ls).1.Within d := fun hw =>
      Nat.lt_irrefl _ (Nat.lt_of_lt_of_le hd (CounterCall.deepest_le_iff.2 hw))
    have href := (follows_runCounted hdm .expression 0 ls).refused hw
    have hreads := (sim_runCounted d .expression 0 ls).reads
    rw [href] at hreads
    exact readAll_of_tooDeep (by rw [← hreads])
  · -- every level is entered below `d`, so the readings at `d` and at the greatest limit agree
    have hw : (runCounted limitMax .expression 0 ls).1.Within d :=
      CounterCall.deepest_le_iff.1 hd
    have hsame := (follows_runCounted hdm .expression 0 ls).same hw
    refine readAll_congr ?_
    rw [← (sim_runCounted d .expression 0 ls).reads, ← (sim_runCounted limitMax .expression 0 ls).reads,
      hsame]

end ExprLang.Tree

namespace ExprLang

namespace Expression

/-- A blank text is no expression, whatever the limit. -/
theorem ofText_fault_of_blank {s : String} {d : Nat} (h : s.all Text.isWhiteSpace = true) :
    (ofText s d).value.fault = some .noExpression := by
  simp [ofText, parse, h]

/-- Any other text has the fault of its reading. -/
theorem ofText_fault_of_readAll {s : String} {d : Nat} {f : Fault}
    (hs : ¬ s.all Text.isWhiteSpace = true)
    (h : (Tree.readAll d (Lexeme.ofText s)).result = .error f) :
    (ofText s d).value.fault = some f := by
  simp [ofText, parse, hs, h]

/-- Two limits at which the text reads the same make the same expression, but for the limit it
keeps. -/
theorem ofText_congr_limit {s : String} {d e : Nat}
    (h : Tree.readAll d (Lexeme.ofText s) = Tree.readAll e (Lexeme.ofText s)) :
    ofText s d = ⟨{ (ofText s e).value with limit := d }, (ofText s e).log⟩ := by
  by_cases hs : s.all Text.isWhiteSpace = true
  · simp [ofText, parse, hs]
  · simp only [ofText, parse, hs, h]
    cases (Tree.readAll e (Lexeme.ofText s)).result <;> rfl

end Expression

/-- The nesting limit is a threshold, and the threshold is the nesting of the text: the deepest
level, counting entries into `expression` and prefixes, that its reading at the greatest limit
enters. It is at least `1`. Below it, reading the text is refused as too deep at the limit
given; from it on, the reading is the one at the greatest limit. An expression made from the
text takes its fault from the reading below the nesting, but a blank text is no expression;
from the nesting on it is the expression made at the greatest limit, with its own limit. -/
theorem nesting_threshold (s : String) :
    1 ≤ nesting (Lexeme.ofText s) ∧ ∀ d,
      (d < nesting (Lexeme.ofText s) →
        (Tree.readAll d (Lexeme.ofText s)).result = .error (.tooDeep d) ∧
        (Expression.ofText s d).value.fault =
          some (if s.all Text.isWhiteSpace then .noExpression else .tooDeep d)) ∧
      (nesting (Lexeme.ofText s) ≤ d → d ≤ limitMax →
        Tree.readAll d (Lexeme.ofText s) = Tree.readAll limitMax (Lexeme.ofText s) ∧
        Expression.ofText s d =
          ⟨{ (Expression.ofText s limitMax).value with limit := d },
            (Expression.ofText s limitMax).log⟩) := by
  obtain ⟨hn, hth⟩ := Tree.readAll_nesting (Lexeme.ofText s)
  refine ⟨hn, fun d => ⟨fun hd => ?_, fun hd hdm => ?_⟩⟩
  · have hr := (hth d).1 hd
    refine ⟨hr, ?_⟩
    by_cases hs : s.all Text.isWhiteSpace = true
    · rw [if_pos hs]
      exact Expression.ofText_fault_of_blank hs
    · rw [if_neg hs]
      exact Expression.ofText_fault_of_readAll hs hr
  · have hr := (hth d).2 hd hdm
    exact ⟨hr, Expression.ofText_congr_limit hr⟩

/-- A blank text is no expression below any threshold: at limit `0` the empty text gives
`noExpression`, not `tooDeep 0`. -/
theorem ofText_blank_not_tooDeep :
    ¬ ∃ n ≥ 1, ∀ d < n, (Expression.ofText "" d).value.fault = some (.tooDeep d) := by
  rintro ⟨n, hn, h⟩
  have h0 := h 0 hn
  rw [Expression.ofText_fault_of_blank (by simp)] at h0
  cases h0

end ExprLang
