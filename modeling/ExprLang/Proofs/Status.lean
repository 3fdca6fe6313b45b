import Mathlib
import ExprLang.Proofs.Nesting
import ExprLang.Proofs.Bindings

/-!
# What an expression remembers

An `Expression` keeps a tree, its symbols and the fault of its latest operation, and these
fit together in every expression a caller can hold (`Reachable`: made from a text, empty, or
left by reading another text, evaluating, or evaluating with parameters). `Consistent` says
how:

* without a tree there are no symbols, and a fault is remembered: there is no expression, or
  the text did not read (a fault of the reading phase);
* with a tree the symbols are the tree's symbols, and a fault remembered, if any, is one of
  evaluating or a parameter that cannot be bound.

So an expression without a fault has a tree. Evaluating, with bindings or with parameters,
keeps the tree, the symbols and the limit, and remembers exactly the fault it returns
(`Leaves`); without a tree it returns the fault remembered before, never a fault of its own.

> `reachable_status`: every reachable expression is `Consistent`, has a tree when it has no
> fault, and evaluating it leaves what `Leaves` says.

Reading a text gives only faults of the reading phase (`phase_of_readAll_error`): this is an
invariant of every outcome of the parser, proved once for any property of outcomes that its
ways of ending and of composing keep (`Parse.Closed.run`).
-/

namespace ExprLang

namespace Parse

/-- A property of outcomes that every way a level can end by itself has, and that the ways
levels are put together keep. -/
structure Closed (limit : Nat) (P : Outcome → Prop) : Prop where
  ok : ∀ t r, P (.ok t, r)
  malformed : ∀ m ls r, P (.error (malformed m ls), r)
  tooDeep : ∀ r, P (.error (.tooDeep limit), r)
  andThen : ∀ o k, P o → (∀ t r, o = (.ok t, r) → P (k t r)) → P (andThen o k)
  mapTree : ∀ f o, P o → P (mapTree f o)
  closeParen : ∀ o, P o → P (closeParen o)

/-- A property that the parser's ways of ending and composing keep holds of every outcome of
every level. The recursion follows `run` itself, through the equations of each level. -/
theorem Closed.run {limit : Nat} {P : Outcome → Prop} (hP : Closed limit P) (lv : Level)
    (depth : Nat) (ls : List Lexeme) : P (run limit lv depth ls).1 := by
  match lv with
  | .expression =>
    rw [run_expression]
    split
    · exact hP.tooDeep ls
    · refine hP.andThen _ _ (hP.run .comparison (depth + 1) ls) fun left rest h => ?_
      have hrest := length_rest_le h
      rcases operatorAhead Operator.isLogical rest with _ | ⟨o, r, hr⟩
      · exact hP.ok left rest
      · exact hP.mapTree _ _ (hP.run .expression (depth + 1) r)
  | .comparison =>
    rw [run_comparison]
    refine hP.andThen _ _ (hP.run .sum depth ls) fun left rest h => ?_
    have hrest := length_rest_le h
    rcases operatorAhead Operator.isComparison rest with _ | ⟨o, r, hr⟩
    · exact hP.ok left rest
    · exact hP.mapTree _ _ (hP.run .sum depth r)
  | .sum =>
    rw [run_sum]
    refine hP.andThen _ _ (hP.run .product depth ls) fun left rest h => ?_
    have hrest := length_rest_le h
    exact hP.run (.sumTail left) depth rest
  | .sumTail acc =>
    rw [run_sumTail]
    rcases operatorAhead isAdditive ls with _ | ⟨o, r, hr⟩
    · exact hP.ok acc ls
    · refine hP.andThen _ _ (hP.run .product depth r) fun right r' h => ?_
      have hr' : r'.length ≤ r.length := length_rest_le h
      exact hP.run (.sumTail (.binary o acc right)) depth r'
  | .product =>
    rw [run_product]
    refine hP.andThen _ _ (hP.run (.signed .power) depth ls) fun left rest h => ?_
    have hrest := length_rest_le h
    exact hP.run (.productTail left) depth rest
  | .productTail acc =>
    rw [run_productTail]
    rcases operatorAhead isMultiplicative ls with _ | ⟨o, r, hr⟩
    · exact hP.ok acc ls
    · refine hP.andThen _ _ (hP.run (.signed .power) depth r) fun right r' h => ?_
      have hr' : r'.length ≤ r.length := length_rest_le h
      exact hP.run (.productTail (.binary o acc right)) depth r'
  | .signed inner =>
    rw [run_signed]
    rcases operatorAhead (fun _ => true) ls with _ | ⟨o, r, hr⟩
    · exact hP.run inner depth ls
    · dsimp only
      split
      · split
        · exact hP.tooDeep r
        · exact hP.mapTree _ _ (hP.run inner (depth + 1) r)
      · exact hP.malformed _ ls ls
  | .power =>
    rw [run_power]
    refine hP.andThen _ _ (hP.run .atom depth ls) fun base rest h => ?_
    have hrest := length_rest_le h
    rcases operatorAhead (· == .power) rest with _ | ⟨o, r, hr⟩
    · exact hP.ok base rest
    · exact hP.mapTree _ _ (hP.run (.signed .atom) depth r)
  | .atom =>
    rw [run_atom]
    match ls with
    | [] => exact hP.malformed _ [] []
    | l :: r =>
      dsimp only
      cases l.token with
      | openParen => exact hP.closeParen _ (hP.run .expression depth r)
      | number _ | string _ | boolean _ | symbol _ => exact hP.ok _ r
      | endOfText | invalid _ | closeParen | op _ => exact hP.malformed _ _ _
termination_by (ls.length, lv.rank)
decreasing_by
  all_goals
    simp only [Prod.lex_def, Level.rank, List.length_cons, true_and]
    omega

/-- An outcome whose fault, if any, belongs to the reading phase. -/
def OfReading (o : Outcome) : Prop :=
  ∀ f, o.1 = .error f → f.phase? = some .reading

/-- Every way of ending and composing keeps faults in the reading phase. -/
theorem closed_ofReading (limit : Nat) : Closed limit OfReading where
  ok _ _ _ h := by cases h
  malformed _ _ _ _ h := by cases h; rfl
  tooDeep _ _ h := by cases h; rfl
  andThen o k ho hk := by
    obtain ⟨_ | t, r⟩ := o
    · exact ho
    · exact hk t r rfl
  mapTree f o ho g h := by
    obtain ⟨_ | t, r⟩ := o
    · exact ho g (by simpa [Parse.mapTree, Except.map] using h)
    · simp [Parse.mapTree, Except.map] at h
  closeParen o ho g h := by
    obtain ⟨_ | t, _ | ⟨l, r⟩⟩ := o
    · exact ho g h
    · exact ho g h
    · cases h
      rfl
    · simp only [Parse.closeParen] at h
      split at h <;> cases h
      rfl

end Parse

namespace Tree

/-- Reading a whole text fails only with a fault of the reading phase: the parser's own, or
text after the expression. -/
theorem phase_of_readAll_error {limit : Nat} {ls : List Lexeme} {f : Fault}
    (h : (readAll limit ls).result = .error f) : f.phase? = some .reading := by
  have hrun := (Parse.closed_ofReading limit).run .expression 0 ls
  unfold readAll readLevel at h
  dsimp only at h
  split at h
  · split at h
    · exact hrun f h
    · cases h
      rfl
  · exact hrun f h

end Tree

namespace Expression

/-- The expressions a caller can hold: one made from a text with a limit (`ofText`; also
`ofString?` when it gives one), the empty one (the default), and those that reading another
text, evaluating, or evaluating with parameters leave. -/
inductive Reachable : Expression → Prop
  | ofText (src : String) (limit : Nat) : Reachable (ofText src limit).value
  | empty : Reachable empty
  | ofString {src : String} {e : Expression} : ofString? src = .ok e → Reachable e
  | parse {e : Expression} (src : String) : Reachable e → Reachable (e.parse src).value
  | eval {e : Expression} (alloc : Allocator) (env : String → Option Value) :
      Reachable e → Reachable (e.eval alloc env).value.1
  | evalParams {e : Expression} (alloc : Allocator) (ps : Params) :
      Reachable e → Reachable (e.evalParams alloc ps).value.1

/-- The default expression is the empty one. -/
theorem default_eq_empty : (default : Expression) = empty := rfl

/-- What an expression remembers fits together. Without a tree there are no symbols, and the
fault remembered is that there is no expression or a fault of reading; with a tree the
symbols are the tree's, and a fault remembered, if any, is one of evaluating or a parameter
that cannot be bound. -/
structure Consistent (e : Expression) : Prop where
  noTree : e.tree = none →
    e.symbols = [] ∧ ∃ f, e.fault = some f ∧ (f = .noExpression ∨ f.phase? = some .reading)
  withTree : ∀ t, e.tree = some t →
    e.symbols = t.symbols ∧ ∀ f, e.fault = some f →
      f.phase? = some .evaluating ∨ ∃ name, f = .unsupportedParam name

/-- What an evaluation of `e` leaves, as the expression after it and the outcome it returns:
the tree, the symbols and the limit as they were, the outcome remembered as the status, and,
when `e` has no tree, exactly the fault `e` remembered. -/
structure Leaves (e : Expression) (r : Expression × Except Fault Value) : Prop where
  tree : r.1.tree = e.tree
  symbols : r.1.symbols = e.symbols
  limit : r.1.limit = e.limit
  status : r.1.status = r.2.map fun _ => ()
  noTree : e.tree = none → ∃ f, e.fault = some f ∧ r.2 = .error f

section
variable {e : Expression}

/-- An expression without a fault has a tree. -/
theorem Consistent.tree_isSome (hc : Consistent e) (h : e.isOk = true) : e.tree.isSome = true := by
  cases ht : e.tree with
  | some t => rfl
  | none =>
    obtain ⟨-, f, hf, -⟩ := hc.noTree ht
    simp [isOk, hf] at h

theorem consistent_empty : Consistent empty where
  noTree _ := ⟨rfl, .noExpression, rfl, .inl rfl⟩
  withTree _ h := by cases h

/-- Reading a text makes an expression consistent, whatever the expression was before:
reading first forgets the tree and the symbols. -/
theorem consistent_parse (e : Expression) (src : String) : Consistent (e.parse src).value := by
  unfold parse
  dsimp only
  split
  · exact ⟨fun _ => ⟨rfl, .noExpression, rfl, .inl rfl⟩, fun _ h => by cases h⟩
  · split
    · rename_i t _
      refine ⟨fun h => (by cases h), fun t' h => ?_⟩
      cases h
      exact ⟨rfl, fun f hf => by cases hf⟩
    · rename_i f hf
      exact ⟨fun _ => ⟨rfl, f, rfl, .inr (Tree.phase_of_readAll_error hf)⟩,
        fun _ h => by cases h⟩

/-- `ofString?` gives the expression made from the text, when it has no fault. -/
theorem eq_ofText_of_ofString {src : String} (h : ofString? src = .ok e) :
    e = (ofText src).value := by
  unfold ofString? at h
  dsimp only at h
  split at h
  · cases h
  · cases h
    rfl

/-- Evaluating keeps the tree, the symbols and the limit, and remembers its outcome; without
a tree it returns the fault remembered. -/
theorem leaves_eval (hc : Consistent e) (alloc : Allocator) (env : String → Option Value) :
    Leaves e (e.eval alloc env).value := by
  cases ht : e.tree with
  | none =>
    obtain ⟨-, f, hf, -⟩ := hc.noTree ht
    have hv : (e.eval alloc env).value = (e, .error f) := by simp [eval, ht, hf]
    rw [hv]
    exact ⟨rfl, rfl, rfl, by simp [status, hf, Except.map], fun _ => ⟨f, hf, rfl⟩⟩
  | some t =>
    refine ⟨?_, ?_, ?_, ?_, fun h => by simp [ht] at h⟩ <;>
      cases hv : t.eval alloc env <;> simp [eval, ht, hv, status, Except.map]

/-- A parameter binds to a value unless it is boolean or undefined, refused by its name. -/
theorem toValue_eq_error {p : Param} {name : String} {f : Fault} (h : p.toValue name = .error f) :
    f = .unsupportedParam name := by
  cases p <;> simp [Param.toValue] at h
  all_goals exact h.symm

/-- Binding parameters one after another, from any table made so far, fails only at a
parameter that cannot be bound. -/
theorem unsupported_of_foldlM_error {items : List Parameter} {acc : List (String × Value)}
    {f : Fault}
    (h : items.foldlM (fun acc p => (p.value.toValue p.name).map fun v => (p.name, v) :: acc)
      acc = .error f) :
    ∃ name, f = .unsupportedParam name := by
  induction items generalizing acc with
  | nil => cases h
  | cons p ps ih =>
    rw [List.foldlM_cons] at h
    cases hp : p.value.toValue p.name with
    | error g =>
      rw [hp] at h
      cases h
      exact ⟨p.name, toValue_eq_error hp⟩
    | ok v =>
      rw [hp] at h
      exact ih h

/-- Evaluating with parameters keeps the tree, the symbols and the limit, and remembers its
outcome; without a tree it returns the fault remembered. -/
theorem leaves_evalParams (hc : Consistent e) (alloc : Allocator) (ps : Params) :
    Leaves e (e.evalParams alloc ps).value := by
  cases ht : e.tree with
  | none =>
    have hv : (e.evalParams alloc ps).value = (e.eval alloc fun _ => none).value := by
      simp [evalParams, ht]
    rw [hv]
    exact leaves_eval hc alloc _
  | some t =>
    cases hb : bindings ps with
    | error f =>
      have hv : (e.evalParams alloc ps).value = ({ e with fault := some f }, .error f) := by
        simp [evalParams, ht, hb]
      rw [hv]
      exact ⟨rfl, rfl, rfl, rfl, fun h => by simp [ht] at h⟩
    | ok table =>
      have hv : (e.evalParams alloc ps).value = (e.eval alloc (lookup table)).value := by
        simp [evalParams, ht, hb]
      rw [hv]
      exact leaves_eval hc alloc _

/-- What an evaluation leaves is consistent when the expression was: the tree and the
symbols stay, and the fault it remembers is one of evaluating or a parameter. -/
theorem Consistent.of_leaves (hc : Consistent e) {r : Expression × Except Fault Value}
    (hl : Leaves e r)
    (hf : ∀ t f, e.tree = some t → r.2 = .error f →
      f.phase? = some .evaluating ∨ ∃ name, f = .unsupportedParam name) :
    Consistent r.1 := by
  have hstatus := hl.status
  refine ⟨fun h => ?_, fun t h => ?_⟩
  · rw [hl.tree] at h
    obtain ⟨f, hef, hr⟩ := hl.noTree h
    rw [hr] at hstatus
    refine ⟨hl.symbols.trans (hc.noTree h).1, f, ?_, (hc.noTree h).2.elim fun g hg => ?_⟩
    · revert hstatus
      unfold status
      split <;> simp_all [Except.map]
    · rw [hef] at hg
      cases hg.1
      exact hg.2
  · rw [hl.tree] at h
    refine ⟨hl.symbols.trans (hc.withTree t h).1, fun f hrf => hf t f h ?_⟩
    rw [status, hrf] at hstatus
    cases hr : r.2 <;> simp_all [Except.map]

theorem Consistent.eval (hc : Consistent e) (alloc : Allocator) (env : String → Option Value) :
    Consistent (e.eval alloc env).value.1 := by
  refine hc.of_leaves (leaves_eval hc alloc env) fun t f ht hr => .inl ?_
  simp only [Expression.eval, ht] at hr
  exact Tree.phase_of_eval_error hr

theorem Consistent.evalParams (hc : Consistent e) (alloc : Allocator) (ps : Params) :
    Consistent (e.evalParams alloc ps).value.1 := by
  refine hc.of_leaves (leaves_evalParams hc alloc ps) fun t f ht hr => ?_
  simp only [Expression.evalParams, ht] at hr
  split at hr
  · cases hr
    exact .inr (unsupported_of_foldlM_error (by assumption))
  · simp only [Expression.eval, ht] at hr
    exact .inl (Tree.phase_of_eval_error hr)

end

/-- The invariant of expressions. Every expression a caller can hold is consistent: without a
tree it has no symbols and remembers that there is no expression or a fault of reading; with a
tree its symbols are the tree's and any fault is one of evaluating or a parameter. So an
expression without a fault has a tree. Evaluating it, with bindings or with parameters, keeps
the tree, the symbols and the limit, remembers exactly the outcome it returns, and without a
tree returns the fault remembered. -/
theorem reachable_status {e : Expression} (h : Reachable e) :
    Consistent e ∧ (e.isOk = true → e.tree.isSome = true) ∧
      (∀ alloc env, Leaves e (e.eval alloc env).value) ∧
      ∀ alloc ps, Leaves e (e.evalParams alloc ps).value := by
  have hc : Consistent e := by
    induction h with
    | ofText src limit => exact consistent_parse _ src
    | empty => exact consistent_empty
    | ofString hs =>
      rw [eq_ofText_of_ofString hs]
      exact consistent_parse _ _
    | parse src _ _ => exact consistent_parse _ src
    | eval alloc env _ ih => exact ih.eval alloc env
    | evalParams alloc ps _ ih => exact ih.evalParams alloc ps
  exact ⟨hc, hc.tree_isSome, leaves_eval hc, leaves_evalParams hc⟩

/-- The expression `x + 1` after an evaluation that found `x` unbound is reachable, and the
invariant holds of it. -/
theorem reachable_status_after_unbound :
    let e := ((ofText "x + 1").value.eval (.upTo isizeMax (Nat.le_refl _)) fun _ => none).value.1
    Reachable e ∧ Consistent e ∧ (e.isOk = true → e.tree.isSome = true) ∧
      (∀ alloc env, Leaves e (e.eval alloc env).value) ∧
      ∀ alloc ps, Leaves e (e.evalParams alloc ps).value :=
  have h := Reachable.eval (.upTo isizeMax (Nat.le_refl _)) (fun _ => none)
    (.ofText "x + 1" defaultLimit)
  ⟨h, reachable_status h⟩

end Expression

end ExprLang
