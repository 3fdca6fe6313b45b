import Mathlib
import ExprLang.Proofs.Levels

/-!
# The nesting counter is balanced

`Parse.run` passes the number of open levels down as an argument. A parser that keeps it as a
counter in its state instead calls `enter` before an expression and before the operand of a
prefix, which refuses with `tooDeep` when `limit` levels are open and else raises the counter,
and `leave` after them on both exits, the tree and the fault. `Parse.runCounted` is that
reading, with the calls it makes on the counter recorded. The main statement,
`runCounted_balanced`, says that for every level, every state and every limit:

* the level gives the counter back as it found it, on both exits;
* it reads what `run` reads: the same tree or fault, and the same lexemes left;
* every call on the counter is made with at most `limit` levels open, or with no more than were
  open at the start, so a reading that starts inside the limit never goes above it;
* `leave` is never called with no level open, so the counter never goes below zero.

So passing the depth down by value, as `run` does, is the same as keeping it in the state.
-/

namespace ExprLang.Parse

/-- A call that a reading makes on its nesting counter, with the counter's value at the call. -/
inductive CounterCall where
  | enter (depth : Nat)
  | leave (depth : Nat)

/-- The counter's value at a call. -/
def CounterCall.depth : CounterCall → Nat
  | .enter d => d
  | .leave d => d

/-- What a level gives when the counter is kept in the state: a tree or a fault, the lexemes
and the counter it leaves on either exit, and the calls it made on the counter, in order. -/
structure Counted where
  result : Except Fault Tree
  lexemes : List Lexeme
  depth : Nat
  calls : List CounterCall

/-- Reads the level `lv` from the lexemes `ls` with the counter at `depth`, calling `enter` and
`leave` where the parser calls them: around an expression, and around the operand of a prefix,
after the prefix is consumed. `enter` refuses when `limit` levels are open and leaves the
counter as it is; `leave` lowers it by one. -/
def runCounted (limit : Nat) (lv : Level) (depth : Nat) (ls : List Lexeme) :
    { o : Counted // o.lexemes.length ≤ ls.length } :=
  match lv with
  | .expression =>
    if limit ≤ depth then ⟨⟨.error (.tooDeep limit), ls, depth, [.enter depth]⟩, Nat.le_refl _⟩
    else
      match runCounted limit .comparison (depth + 1) ls with
      | ⟨⟨.ok left, rest, d₁, calls₁⟩, h₁⟩ =>
        match operatorAhead Operator.isLogical rest with
        | some (o, ⟨r, hr⟩) =>
          match runCounted limit .expression d₁ r with
          | ⟨⟨res, r', d₂, calls₂⟩, h₂⟩ =>
            ⟨⟨res.map (.binary o left), r', d₂ - 1,
              .enter depth :: calls₁ ++ calls₂ ++ [.leave d₂]⟩,
              Nat.le_trans h₂ (Nat.le_trans (Nat.le_of_lt hr) h₁)⟩
        | none => ⟨⟨.ok left, rest, d₁ - 1, .enter depth :: calls₁ ++ [.leave d₁]⟩, h₁⟩
      | ⟨⟨.error f, rest, d₁, calls₁⟩, h₁⟩ =>
        ⟨⟨.error f, rest, d₁ - 1, .enter depth :: calls₁ ++ [.leave d₁]⟩, h₁⟩
  | .comparison =>
    match runCounted limit .sum depth ls with
    | ⟨⟨.ok left, rest, d₁, calls₁⟩, h₁⟩ =>
      match operatorAhead Operator.isComparison rest with
      | some (o, ⟨r, hr⟩) =>
        match runCounted limit .sum d₁ r with
        | ⟨⟨res, r', d₂, calls₂⟩, h₂⟩ =>
          ⟨⟨res.map (.binary o left), r', d₂, calls₁ ++ calls₂⟩,
            Nat.le_trans h₂ (Nat.le_trans (Nat.le_of_lt hr) h₁)⟩
      | none => ⟨⟨.ok left, rest, d₁, calls₁⟩, h₁⟩
    | other => other
  | .sum =>
    match runCounted limit .product depth ls with
    | ⟨⟨.ok left, rest, d₁, calls₁⟩, h₁⟩ =>
      match runCounted limit (.sumTail left) d₁ rest with
      | ⟨⟨res, r', d₂, calls₂⟩, h₂⟩ =>
        ⟨⟨res, r', d₂, calls₁ ++ calls₂⟩, Nat.le_trans h₂ h₁⟩
    | other => other
  | .sumTail acc =>
    match operatorAhead isAdditive ls with
    | some (o, ⟨r, hr⟩) =>
      match runCounted limit .product depth r with
      | ⟨⟨.ok right, r', d₁, calls₁⟩, h₁⟩ =>
        match runCounted limit (.sumTail (.binary o acc right)) d₁ r' with
        | ⟨⟨res, r'', d₂, calls₂⟩, h₂⟩ =>
          ⟨⟨res, r'', d₂, calls₁ ++ calls₂⟩, Nat.le_trans h₂ (Nat.le_trans h₁ (Nat.le_of_lt hr))⟩
      | ⟨⟨.error f, r', d₁, calls₁⟩, h₁⟩ =>
        ⟨⟨.error f, r', d₁, calls₁⟩, Nat.le_trans h₁ (Nat.le_of_lt hr)⟩
    | none => ⟨⟨.ok acc, ls, depth, []⟩, Nat.le_refl _⟩
  | .product =>
    match runCounted limit (.signed .power) depth ls with
    | ⟨⟨.ok left, rest, d₁, calls₁⟩, h₁⟩ =>
      match runCounted limit (.productTail left) d₁ rest with
      | ⟨⟨res, r', d₂, calls₂⟩, h₂⟩ =>
        ⟨⟨res, r', d₂, calls₁ ++ calls₂⟩, Nat.le_trans h₂ h₁⟩
    | other => other
  | .productTail acc =>
    match operatorAhead isMultiplicative ls with
    | some (o, ⟨r, hr⟩) =>
      match runCounted limit (.signed .power) depth r with
      | ⟨⟨.ok right, r', d₁, calls₁⟩, h₁⟩ =>
        match runCounted limit (.productTail (.binary o acc right)) d₁ r' with
        | ⟨⟨res, r'', d₂, calls₂⟩, h₂⟩ =>
          ⟨⟨res, r'', d₂, calls₁ ++ calls₂⟩, Nat.le_trans h₂ (Nat.le_trans h₁ (Nat.le_of_lt hr))⟩
      | ⟨⟨.error f, r', d₁, calls₁⟩, h₁⟩ =>
        ⟨⟨.error f, r', d₁, calls₁⟩, Nat.le_trans h₁ (Nat.le_of_lt hr)⟩
    | none => ⟨⟨.ok acc, ls, depth, []⟩, Nat.le_refl _⟩
  | .signed inner =>
    match operatorAhead (fun _ => true) ls with
    | some (o, ⟨r, hr⟩) =>
      if o.isPrefix then
        if limit ≤ depth then
          ⟨⟨.error (.tooDeep limit), r, depth, [.enter depth]⟩, Nat.le_of_lt hr⟩
        else
          match runCounted limit inner (depth + 1) r with
          | ⟨⟨res, r', d₁, calls₁⟩, h₁⟩ =>
            ⟨⟨res.map (applyPrefix o), r', d₁ - 1, .enter depth :: calls₁ ++ [.leave d₁]⟩,
              Nat.le_trans h₁ (Nat.le_of_lt hr)⟩
      else
        ⟨⟨.error (malformed ("unacceptable operator '" ++ o.spelling ++ "'") ls), ls, depth, []⟩,
          Nat.le_refl _⟩
    | none => runCounted limit inner depth ls
  | .power =>
    match runCounted limit .atom depth ls with
    | ⟨⟨.ok base, rest, d₁, calls₁⟩, h₁⟩ =>
      match operatorAhead (· == .power) rest with
      | some (_, ⟨r, hr⟩) =>
        match runCounted limit (.signed .atom) d₁ r with
        | ⟨⟨res, r', d₂, calls₂⟩, h₂⟩ =>
          ⟨⟨res.map (.binary .power base), r', d₂, calls₁ ++ calls₂⟩,
            Nat.le_trans h₂ (Nat.le_trans (Nat.le_of_lt hr) h₁)⟩
      | none => ⟨⟨.ok base, rest, d₁, calls₁⟩, h₁⟩
    | other => other
  | .atom =>
    match ls with
    | l :: r =>
      match l.token with
      | .number x => ⟨⟨.ok (.number x), r, depth, []⟩, Nat.le_succ _⟩
      | .string s => ⟨⟨.ok (.string s), r, depth, []⟩, Nat.le_succ _⟩
      | .boolean b => ⟨⟨.ok (.boolean b), r, depth, []⟩, Nat.le_succ _⟩
      | .symbol name => ⟨⟨.ok (.symbol name), r, depth, []⟩, Nat.le_succ _⟩
      | .openParen =>
        match runCounted limit .expression depth r with
        | ⟨⟨.ok e, l' :: r', d₁, calls₁⟩, h₁⟩ =>
          match l'.token with
          | .closeParen =>
            ⟨⟨.ok e, r', d₁, calls₁⟩,
              Nat.le_trans (Nat.le_succ _) (Nat.le_trans h₁ (Nat.le_succ _))⟩
          | _ => ⟨⟨.error (malformed "expect ')'" (l' :: r')), l' :: r', d₁, calls₁⟩,
              Nat.le_trans h₁ (Nat.le_succ _)⟩
        | ⟨⟨.ok _, [], d₁, calls₁⟩, _⟩ =>
          ⟨⟨.error (malformed "expect ')'" []), [], d₁, calls₁⟩, Nat.zero_le _⟩
        | ⟨⟨.error f, r', d₁, calls₁⟩, h₁⟩ =>
          ⟨⟨.error f, r', d₁, calls₁⟩, Nat.le_trans h₁ (Nat.le_succ _)⟩
      | .endOfText => ⟨⟨.error (malformed "unexpected end" (l :: r)), l :: r, depth, []⟩,
          Nat.le_refl _⟩
      | .invalid m => ⟨⟨.error (malformed m (l :: r)), l :: r, depth, []⟩, Nat.le_refl _⟩
      | .closeParen | .op _ =>
        ⟨⟨.error (malformed "expect an operand" (l :: r)), l :: r, depth, []⟩, Nat.le_refl _⟩
    | [] => ⟨⟨.error (malformed "unexpected end" []), [], depth, []⟩, Nat.le_refl _⟩
termination_by (ls.length, lv.rank)
decreasing_by
  all_goals
    simp only [Prod.lex_def, Level.rank, List.length_cons, true_and] at *
    omega

/-! ## The reading in steps -/

namespace Counted

/-- A reading that calls nothing on the counter. -/
def leaf (res : Except Fault Tree) (ls : List Lexeme) (depth : Nat) : Counted :=
  ⟨res, ls, depth, []⟩

/-- `enter` refused with `depth` levels open, before the lexemes `ls`. -/
def refused (limit depth : Nat) (ls : List Lexeme) : Counted :=
  ⟨.error (.tooDeep limit), ls, depth, [.enter depth]⟩

/-- Goes on from a first part, as `Parse.andThen` does: a fault ends the level where it arose,
a tree goes to `k` with the lexemes and the counter after it. The calls of both parts are kept
in order. -/
def andThen (o : Counted) (k : Tree → List Lexeme → Nat → Counted) : Counted :=
  match o.result with
  | .ok t => { k t o.lexemes o.depth with calls := o.calls ++ (k t o.lexemes o.depth).calls }
  | .error _ => o

/-- A reading with `f` applied to its tree. -/
def mapTree (f : Tree → Tree) (o : Counted) : Counted :=
  { o with result := o.result.map f }

/-- A reading between `enter`, called with `depth` levels open, and `leave`. -/
def nest (depth : Nat) (o : Counted) : Counted :=
  { o with depth := o.depth - 1, calls := .enter depth :: o.calls ++ [.leave o.depth] }

/-- A bracket closing after the expression inside it, as `Parse.closeParen` has it. -/
def closeParen (o : Counted) : Counted :=
  { o with
    result := (Parse.closeParen (o.result, o.lexemes)).1
    lexemes := (Parse.closeParen (o.result, o.lexemes)).2 }

end Counted

section Equations

variable {limit depth : Nat} {ls : List Lexeme}

theorem runCounted_expression :
    (runCounted limit .expression depth ls).1 =
      if limit ≤ depth then .refused limit depth ls
      else .nest depth ((runCounted limit .comparison (depth + 1) ls).1.andThen fun left rest d =>
        match operatorAhead Operator.isLogical rest with
        | some (o, r) => .mapTree (.binary o left) (runCounted limit .expression d r.1).1
        | none => .leaf (.ok left) rest d) := by
  rw [runCounted.eq_def]
  dsimp only
  split
  · rfl
  · rcases runCounted limit .comparison (depth + 1) ls with ⟨⟨f | left, rest, d₁, calls₁⟩, h₁⟩
    · rfl
    · dsimp only [Counted.andThen]
      rcases operatorAhead Operator.isLogical rest with _ | ⟨o, r, hr⟩
      · simp [Counted.nest, Counted.leaf]
      · rcases runCounted limit .expression d₁ r with ⟨⟨res, r', d₂, calls₂⟩, h₂⟩
        rfl

theorem runCounted_comparison :
    (runCounted limit .comparison depth ls).1 =
      (runCounted limit .sum depth ls).1.andThen fun left rest d =>
        match operatorAhead Operator.isComparison rest with
        | some (o, r) => .mapTree (.binary o left) (runCounted limit .sum d r.1).1
        | none => .leaf (.ok left) rest d := by
  rw [runCounted.eq_def]
  dsimp only
  rcases runCounted limit .sum depth ls with ⟨⟨f | left, rest, d₁, calls₁⟩, h₁⟩
  · rfl
  · dsimp only [Counted.andThen]
    rcases operatorAhead Operator.isComparison rest with _ | ⟨o, r, hr⟩
    · simp [Counted.leaf]
    · rcases runCounted limit .sum d₁ r with ⟨⟨res, r', d₂, calls₂⟩, h₂⟩
      rfl

theorem runCounted_sum :
    (runCounted limit .sum depth ls).1 =
      (runCounted limit .product depth ls).1.andThen fun left rest d =>
        (runCounted limit (.sumTail left) d rest).1 := by
  rw [runCounted.eq_def]
  dsimp only
  rcases runCounted limit .product depth ls with ⟨⟨f | left, rest, d₁, calls₁⟩, h₁⟩ <;> rfl

theorem runCounted_sumTail (acc : Tree) :
    (runCounted limit (.sumTail acc) depth ls).1 =
      match operatorAhead isAdditive ls with
      | some (o, r) => (runCounted limit .product depth r.1).1.andThen fun right r' d =>
          (runCounted limit (.sumTail (.binary o acc right)) d r').1
      | none => .leaf (.ok acc) ls depth := by
  rw [runCounted.eq_def]
  dsimp only
  rcases operatorAhead isAdditive ls with _ | ⟨o, r, hr⟩
  · rfl
  · dsimp only
    rcases runCounted limit .product depth r with ⟨⟨f | right, r', d₁, calls₁⟩, h₁⟩ <;> rfl

theorem runCounted_product :
    (runCounted limit .product depth ls).1 =
      (runCounted limit (.signed .power) depth ls).1.andThen fun left rest d =>
        (runCounted limit (.productTail left) d rest).1 := by
  rw [runCounted.eq_def]
  dsimp only
  rcases runCounted limit (.signed .power) depth ls with ⟨⟨f | left, rest, d₁, calls₁⟩, h₁⟩ <;>
    rfl

theorem runCounted_productTail (acc : Tree) :
    (runCounted limit (.productTail acc) depth ls).1 =
      match operatorAhead isMultiplicative ls with
      | some (o, r) => (runCounted limit (.signed .power) depth r.1).1.andThen fun right r' d =>
          (runCounted limit (.productTail (.binary o acc right)) d r').1
      | none => .leaf (.ok acc) ls depth := by
  rw [runCounted.eq_def]
  dsimp only
  rcases operatorAhead isMultiplicative ls with _ | ⟨o, r, hr⟩
  · rfl
  · dsimp only
    rcases runCounted limit (.signed .power) depth r with ⟨⟨f | right, r', d₁, calls₁⟩, h₁⟩ <;>
      rfl

theorem runCounted_signed (inner : Level) :
    (runCounted limit (.signed inner) depth ls).1 =
      match operatorAhead (fun _ => true) ls with
      | some (o, r) =>
        if o.isPrefix then
          if limit ≤ depth then .refused limit depth r.1
          else .nest depth (.mapTree (applyPrefix o) (runCounted limit inner (depth + 1) r.1).1)
        else .leaf (.error (malformed ("unacceptable operator '" ++ o.spelling ++ "'") ls)) ls depth
      | none => (runCounted limit inner depth ls).1 := by
  rw [runCounted.eq_def]
  dsimp only
  rcases operatorAhead (fun _ => true) ls with _ | ⟨o, r, hr⟩
  · rfl
  · dsimp only
    split
    · split
      · rfl
      · rcases runCounted limit inner (depth + 1) r with ⟨⟨res, r', d₁, calls₁⟩, h₁⟩
        rfl
    · rfl

theorem runCounted_power :
    (runCounted limit .power depth ls).1 =
      (runCounted limit .atom depth ls).1.andThen fun base rest d =>
        match operatorAhead (· == .power) rest with
        | some (_, r) => .mapTree (.binary .power base) (runCounted limit (.signed .atom) d r.1).1
        | none => .leaf (.ok base) rest d := by
  rw [runCounted.eq_def]
  dsimp only
  rcases runCounted limit .atom depth ls with ⟨⟨f | base, rest, d₁, calls₁⟩, h₁⟩
  · rfl
  · dsimp only [Counted.andThen]
    rcases operatorAhead (· == .power) rest with _ | ⟨o, r, hr⟩
    · simp [Counted.leaf]
    · rcases runCounted limit (.signed .atom) d₁ r with ⟨⟨res, r', d₂, calls₂⟩, h₂⟩
      rfl

theorem runCounted_atom :
    (runCounted limit .atom depth ls).1 =
      match ls with
      | l :: r =>
        match l.token with
        | .number x => .leaf (.ok (.number x)) r depth
        | .string s => .leaf (.ok (.string s)) r depth
        | .boolean b => .leaf (.ok (.boolean b)) r depth
        | .symbol name => .leaf (.ok (.symbol name)) r depth
        | .openParen => .closeParen (runCounted limit .expression depth r).1
        | .endOfText => .leaf (.error (malformed "unexpected end" (l :: r))) (l :: r) depth
        | .invalid m => .leaf (.error (malformed m (l :: r))) (l :: r) depth
        | .closeParen | .op _ =>
          .leaf (.error (malformed "expect an operand" (l :: r))) (l :: r) depth
      | [] => .leaf (.error (malformed "unexpected end" [])) [] depth := by
  rw [runCounted.eq_def]
  dsimp only
  rcases ls with _ | ⟨l, r⟩
  · rfl
  · dsimp only
    rcases l with ⟨tk, start, stop, source, rest⟩
    cases tk <;> try rfl
    dsimp only
    rcases runCounted limit .expression depth r with
      ⟨⟨f | e, _ | ⟨⟨tk', start', stop', source', rest'⟩, r'⟩, d₁, calls₁⟩, h₁⟩ <;> try rfl
    cases tk' <;> rfl

end Equations

/-! ## The counted reading simulates `run` -/

/-- A counted reading `o` simulates the outcome `out` of `run` with `depth` levels open: the
same tree or fault and the same lexemes left, the counter given back at `depth`, every call on
it made with at most `max limit depth` levels open, and no `leave` with none open. -/
structure Sim (limit depth : Nat) (o : Counted) (out : Outcome) : Prop where
  reads : (o.result, o.lexemes) = out
  restores : o.depth = depth
  bounded : ∀ e ∈ o.calls, e.depth ≤ max limit depth
  leaves_open : ∀ d, .leave d ∈ o.calls → 0 < d

namespace Sim

variable {limit depth : Nat} {o : Counted} {out : Outcome}

theorem leaf (res : Except Fault Tree) (rest : List Lexeme) :
    Sim limit depth (.leaf res rest depth) (res, rest) :=
  ⟨rfl, rfl, by simp [Counted.leaf], by simp [Counted.leaf]⟩

theorem refused (rest : List Lexeme) :
    Sim limit depth (.refused limit depth rest) (.error (.tooDeep limit), rest) :=
  ⟨rfl, rfl, by simp [Counted.refused, CounterCall.depth], by simp [Counted.refused]⟩

theorem mapTree {f : Tree → Tree} (h : Sim limit depth o out) :
    Sim limit depth (o.mapTree f) (Parse.mapTree f out) :=
  ⟨by rw [← h.reads]; rfl, h.restores, h.bounded, h.leaves_open⟩

theorem closeParen (h : Sim limit depth o out) :
    Sim limit depth o.closeParen (Parse.closeParen out) :=
  ⟨by rw [← h.reads]; rfl, h.restores, h.bounded, h.leaves_open⟩

/-- Two parts in a row: the second starts with the counter the first gave back, so both keep
to the same bound and the calls of both do. -/
theorem andThen {k : Tree → List Lexeme → Nat → Counted} {k' : Tree → List Lexeme → Outcome}
    (h : Sim limit depth o out)
    (hk : ∀ t r, out = (.ok t, r) → Sim limit depth (k t r depth) (k' t r)) :
    Sim limit depth (o.andThen k) (Parse.andThen out k') := by
  obtain ⟨rfl, hd, hb, hl⟩ := h
  rcases o with ⟨f | t, rest, d, calls⟩
  · exact ⟨rfl, hd, hb, hl⟩
  · dsimp only at hd
    subst hd
    obtain ⟨hreads, hd', hb', hl'⟩ := hk t rest rfl
    exact ⟨hreads, hd', List.forall_mem_append.2 ⟨hb, hb'⟩,
      fun d he => (List.mem_append.1 he).elim (hl d) (hl' d)⟩

/-- A part between `enter` and `leave`: `enter` passed its check, so the part runs with one more
level open and at most `limit`, and `leave` finds that level open. -/
theorem nest (hd : ¬ limit ≤ depth) (h : Sim limit (depth + 1) o out) :
    Sim limit depth (o.nest depth) out := by
  obtain ⟨hreads, hdepth, hb, hl⟩ := h
  have hmax : max limit (depth + 1) = limit := by omega
  refine ⟨hreads, by simp [Counted.nest, hdepth], ?_, ?_⟩
  · intro e he
    simp only [Counted.nest, List.cons_append, List.mem_cons, List.mem_append,
      List.not_mem_nil, or_false] at he
    rcases he with rfl | he | rfl
    · exact le_max_right _ _
    · have := hb e he
      omega
    · simp only [CounterCall.depth, hdepth]
      omega
  · intro d he
    simp only [Counted.nest, List.cons_append, List.mem_cons, List.mem_append,
      List.not_mem_nil, or_false, reduceCtorEq, false_or, CounterCall.leave.injEq] at he
    rcases he with he | rfl
    · exact hl d he
    · omega

end Sim

/-- Every level of the counted reading simulates `run`. The recursion follows `run` itself:
each level's equation on both sides, then the step lemma for each way the parts are put
together. -/
theorem sim_runCounted (limit : Nat) (lv : Level) (depth : Nat) (ls : List Lexeme) :
    Sim limit depth (runCounted limit lv depth ls).1 (run limit lv depth ls).1 := by
  match lv with
  | .expression =>
    rw [runCounted_expression, run_expression]
    by_cases hd : limit ≤ depth
    · rw [if_pos hd, if_pos hd]
      exact .refused ls
    · rw [if_neg hd, if_neg hd]
      refine .nest hd ((sim_runCounted limit .comparison (depth + 1) ls).andThen
        fun left rest h => ?_)
      have hrest := length_rest_le h
      rcases operatorAhead Operator.isLogical rest with _ | ⟨o, r, hr⟩
      · exact .leaf _ _
      · exact (sim_runCounted limit .expression (depth + 1) r).mapTree
  | .comparison =>
    rw [runCounted_comparison, run_comparison]
    refine (sim_runCounted limit .sum depth ls).andThen fun left rest h => ?_
    have hrest := length_rest_le h
    rcases operatorAhead Operator.isComparison rest with _ | ⟨o, r, hr⟩
    · exact .leaf _ _
    · exact (sim_runCounted limit .sum depth r).mapTree
  | .sum =>
    rw [runCounted_sum, run_sum]
    refine (sim_runCounted limit .product depth ls).andThen fun left rest h => ?_
    have hrest := length_rest_le h
    exact sim_runCounted limit (.sumTail left) depth rest
  | .sumTail acc =>
    rw [runCounted_sumTail, run_sumTail]
    rcases operatorAhead isAdditive ls with _ | ⟨o, r, hr⟩
    · exact .leaf _ _
    · refine (sim_runCounted limit .product depth r).andThen fun right r' h => ?_
      have hr' : r'.length ≤ r.length := length_rest_le h
      exact sim_runCounted limit (.sumTail (.binary o acc right)) depth r'
  | .product =>
    rw [runCounted_product, run_product]
    refine (sim_runCounted limit (.signed .power) depth ls).andThen fun left rest h => ?_
    have hrest := length_rest_le h
    exact sim_runCounted limit (.productTail left) depth rest
  | .productTail acc =>
    rw [runCounted_productTail, run_productTail]
    rcases operatorAhead isMultiplicative ls with _ | ⟨o, r, hr⟩
    · exact .leaf _ _
    · refine (sim_runCounted limit (.signed .power) depth r).andThen fun right r' h => ?_
      have hr' : r'.length ≤ r.length := length_rest_le h
      exact sim_runCounted limit (.productTail (.binary o acc right)) depth r'
  | .signed inner =>
    rw [runCounted_signed, run_signed]
    rcases operatorAhead (fun _ => true) ls with _ | ⟨o, r, hr⟩
    · exact sim_runCounted limit inner depth ls
    · dsimp only
      split
      · by_cases hd : limit ≤ depth
        · rw [if_pos hd, if_pos hd]
          exact .refused r
        · rw [if_neg hd, if_neg hd]
          exact .nest hd (sim_runCounted limit inner (depth + 1) r).mapTree
      · exact .leaf _ _
  | .power =>
    rw [runCounted_power, run_power]
    refine (sim_runCounted limit .atom depth ls).andThen fun base rest h => ?_
    have hrest := length_rest_le h
    rcases operatorAhead (· == .power) rest with _ | ⟨o, r, hr⟩
    · exact .leaf _ _
    · exact (sim_runCounted limit (.signed .atom) depth r).mapTree
  | .atom =>
    rw [runCounted_atom, run_atom]
    cases ls with
    | nil => exact .leaf _ _
    | cons l r =>
      dsimp only
      cases l.token with
      | openParen => exact (sim_runCounted limit .expression depth r).closeParen
      | _ => exact .leaf _ _
termination_by (ls.length, lv.rank)
decreasing_by
  all_goals
    simp only [Prod.lex_def, Level.rank, List.length_cons, true_and]
    omega

/-- The nesting counter is balanced. For every level, every limit and every state of the
reading (the counter at `depth`, the lexemes `ls`), the counted reading gives the counter back
at `depth` on both exits; it reads what `run` reads, the same tree or fault and the same
lexemes left; every call on the counter is made with at most `max limit depth` levels open, so
with at most `limit` in every state the reading reaches from the start of a text; and `leave`
is only ever called with a level open. -/
theorem runCounted_balanced (limit : Nat) (lv : Level) (depth : Nat) (ls : List Lexeme) :
    (runCounted limit lv depth ls).1.depth = depth ∧
    ((runCounted limit lv depth ls).1.result, (runCounted limit lv depth ls).1.lexemes) =
      (run limit lv depth ls).1 ∧
    (∀ e ∈ (runCounted limit lv depth ls).1.calls, e.depth ≤ max limit depth) ∧
    (∀ d, .leave d ∈ (runCounted limit lv depth ls).1.calls → 0 < d) := by
  obtain ⟨hreads, hdepth, hb, hl⟩ := sim_runCounted limit lv depth ls
  exact ⟨hdepth, hreads, hb, hl⟩

end ExprLang.Parse
