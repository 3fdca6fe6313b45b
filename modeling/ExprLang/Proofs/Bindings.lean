import Mathlib
import ExprLang.Proofs.Collect
import ExprLang.Proofs.Typing

/-!
# What evaluation reads of its bindings

Evaluation looks a symbol up only when it reaches the symbol's leaf, and it reaches every
leaf: both operands of every operator are evaluated, the left one first, `&&` and `||`
included, and the first fault ends the whole evaluation. So the bindings are read exactly at
the symbols of the tree, in the order of `Tree.symbols` (`eval_bindings_through_symbols`):

> two bindings that agree on the symbols of a tree give it the same outcome (`eval_congr`);
> a value of the tree means a value of every subtree (`eval_ok_of_subtree`), so every symbol
> is bound (`bound_of_eval_ok`); and when the outcome is an unbound symbol, it is the first
> symbol of the tree that the bindings leave unbound (`find_unbound_of_eval`).

The last statement rests on two facts. Operators never report an unbound symbol: they refuse
the kinds of their operands or meet a fault of values (`applyBinary_ne_unbound`, from the
operator lemmas of `ExprLang.Proofs.Typing`). And the walk that lists `Tree.symbols` keeps the
first occurrence of each name and drops the later ones (`Tree.symbols_eq_eraseDups`), so the
first unbound name is the same with or without the repetitions (`find?_eraseDups`).

The faults that evaluation can give at all are the faults of the evaluating phase
(`phase_of_eval_error`), which `ExprLang.Proofs.Status` needs.
-/

namespace ExprLang

/-- Dropping the later copies of names keeps the first name that passes a test. -/
theorem find?_eraseDups {α : Type} [BEq α] [LawfulBEq α] (p : α → Bool) :
    (l : List α) → l.eraseDups.find? p = l.find? p
  | [] => rfl
  | a :: as => by
    rw [List.eraseDups_cons, List.find?_cons, List.find?_cons]
    cases ha : p a with
    | true => rfl
    | false =>
      -- the copies of `a` that `eraseDups` drops fail the test as `a` does
      have hrec := find?_eraseDups p (as.filter fun b => !b == a)
      rw [hrec, List.find?_filter]
      apply List.find?_congr
      intro b _
      by_cases hb : b = a
      · subst hb
        simp [ha]
      · simp [hb]
termination_by l => l.length
decreasing_by exact Nat.lt_succ_of_le (List.length_filter_le _ _)

namespace Tree

variable {alloc : Allocator}

/-- `Subtree s t`: `s` is `t` itself or a subtree of one of its operands. -/
inductive Subtree : Tree → Tree → Prop
  | refl (t : Tree) : Subtree t t
  | unary {s a : Tree} (op : Operator) : Subtree s a → Subtree s (.unary op a)
  | left {s l : Tree} (op : Operator) (r : Tree) : Subtree s l → Subtree s (.binary op l r)
  | right {s r : Tree} (op : Operator) (l : Tree) : Subtree s r → Subtree s (.binary op l r)

/-- Every symbol of a tree is one of its leaves. -/
theorem subtree_symbol_of_mem {t : Tree} {n : String} (h : n ∈ t.symbolOccurrences) :
    Subtree (.symbol n) t := by
  induction t with
  | number _ | string _ | boolean _ => simp [symbolOccurrences] at h
  | symbol name =>
    simp only [symbolOccurrences, List.mem_singleton] at h
    subst h
    exact .refl _
  | unary op a ih => exact .unary op (ih h)
  | binary op l r ihl ihr =>
    rcases List.mem_append.1 h with h | h
    · exact .left op r (ihl h)
    · exact .right op l (ihr h)

/-! ## Operators report no unbound symbol -/

/-- A prefix operator refuses the kind of its operand or gives a value. -/
theorem applyUnary_ne_unbound (o : Operator) (a : Value) (n : String) :
    applyUnary o a ≠ .error (.unbound n) := by
  intro h
  cases hk : o.unaryKind? a.kind with
  | none => rw [applyUnary_of_unaryKind_none hk] at h; cases h
  | some k =>
    have hf := applyUnary_of_unaryKind_some hk
    rw [h, fits_error] at hf
    exact hf

/-- A binary operator refuses the kinds of its operands, meets a fault of values, or gives a
value. -/
theorem applyBinary_ne_unbound (o : Operator) (a b : Value) (n : String) :
    applyBinary alloc o a b ≠ .error (.unbound n) := by
  intro h
  cases hk : o.binaryKind? a.kind b.kind with
  | none => rw [applyBinary_of_binaryKind_none hk] at h; cases h
  | some k =>
    have hf : Fits k (applyBinary alloc o a b) := applyBinary_of_binaryKind_some hk
    rw [h, fits_error] at hf
    exact hf

/-! ## The bindings are read at the symbols -/

section
variable {env : String → Option Value}

/-- Evaluation reads the bindings only at the symbols of the tree. -/
theorem eval_congr {env₁ env₂ : String → Option Value} (t : Tree)
    (h : ∀ n ∈ t.symbolOccurrences, env₁ n = env₂ n) :
    t.eval alloc env₁ = t.eval alloc env₂ := by
  induction t with
  | number _ | string _ | boolean _ => rfl
  | symbol name => simp only [eval, h name (by simp [symbolOccurrences])]
  | unary op a ih => simp only [eval, ih h]
  | binary op l r ihl ihr =>
    simp only [symbolOccurrences, List.mem_append] at h
    simp only [eval, ihl fun n hn => h n (.inl hn), ihr fun n hn => h n (.inr hn)]

/-- No operand is skipped: a tree with a value has a value at every subtree. -/
theorem eval_ok_of_subtree {s t : Tree} (hs : Subtree s t) {v : Value}
    (h : t.eval alloc env = .ok v) : ∃ w, s.eval alloc env = .ok w := by
  induction hs generalizing v with
  | refl => exact ⟨v, h⟩
  | unary op _ ih =>
    obtain ⟨va, ha, -⟩ := bind_eq_ok h
    exact ih ha
  | left op r _ ih =>
    obtain ⟨vl, hl, -⟩ := bind_eq_ok h
    exact ih hl
  | right op l _ ih =>
    obtain ⟨vl, -, h⟩ := bind_eq_ok h
    obtain ⟨vr, hr, -⟩ := bind_eq_ok h
    exact ih hr

/-- A tree with a value has all its symbols bound. -/
theorem bound_of_eval_ok {t : Tree} {v : Value} (h : t.eval alloc env = .ok v) {n : String}
    (hn : n ∈ t.symbolOccurrences) : (env n).isSome := by
  obtain ⟨w, hw⟩ := eval_ok_of_subtree (subtree_symbol_of_mem hn) h
  cases he : env n with
  | none => simp [eval, he] at hw
  | some _ => rfl

/-- An unbound symbol as the outcome is the first symbol, from left to right, that the
bindings leave unbound. The left operand is evaluated first: if it has a value, all its
symbols are bound, and the fault comes from the right operand. -/
theorem find_unbound_of_eval {t : Tree} {n : String} (h : t.eval alloc env = .error (.unbound n)) :
    t.symbolOccurrences.find? (fun m => (env m).isNone) = some n := by
  induction t with
  | number _ | string _ | boolean _ => cases h
  | symbol name =>
    cases he : env name with
    | some v => simp [eval, he] at h
    | none =>
      simp only [eval, he, Except.error.injEq, Fault.unbound.injEq] at h
      subst h
      simp [symbolOccurrences, he]
  | unary op a ih =>
    cases ha : a.eval alloc env with
    | error f =>
      rw [eval, ha] at h
      cases h
      exact ih ha
    | ok va =>
      rw [eval, ha] at h
      exact absurd h (applyUnary_ne_unbound op va n)
  | binary op l r ihl ihr =>
    simp only [symbolOccurrences, List.find?_append]
    cases hl : l.eval alloc env with
    | error f =>
      rw [eval, hl] at h
      cases h
      rw [ihl hl]
      rfl
    | ok vl =>
      have hnone : l.symbolOccurrences.find? (fun m => (env m).isNone) = none :=
        List.find?_eq_none.2 fun m hm => by
          have hb := bound_of_eval_ok hl hm
          rw [Option.isSome_iff_ne_none] at hb
          simpa using hb
      rw [hnone, Option.none_or]
      cases hr : r.eval alloc env with
      | error f =>
        rw [eval, hl] at h
        change r.eval alloc env >>= _ = _ at h
        rw [hr] at h
        cases h
        exact ihr hr
      | ok vr =>
        rw [eval, hl] at h
        change r.eval alloc env >>= _ = _ at h
        rw [hr] at h
        exact absurd h (applyBinary_ne_unbound op vl vr n)

end

/-- Evaluation sees the bindings only through the symbols of the tree, and never
short-circuits. Bindings that agree on `t.symbols` give the same outcome; a value of `t` means
a value of every subtree, both operands of `&&` and `||` included, so every symbol is bound;
and an unbound symbol as the outcome is the first of `t.symbols` that the bindings leave
unbound. -/
theorem eval_bindings_through_symbols (alloc : Allocator) (t : Tree) :
    (∀ env₁ env₂ : String → Option Value, (∀ n ∈ t.symbols, env₁ n = env₂ n) →
      t.eval alloc env₁ = t.eval alloc env₂) ∧
    (∀ (env : String → Option Value) (v : Value), t.eval alloc env = .ok v →
      (∀ s, Subtree s t → ∃ w, s.eval alloc env = .ok w) ∧ ∀ n ∈ t.symbols, (env n).isSome) ∧
    (∀ (env : String → Option Value) (n : String), t.eval alloc env = .error (.unbound n) →
      t.symbols.find? (fun m => (env m).isNone) = some n) := by
  refine ⟨fun env₁ env₂ h => ?_, fun env v h => ?_, fun env n h => ?_⟩
  · exact eval_congr t fun n hn => h n (mem_symbols.2 hn)
  · exact ⟨fun s hs => eval_ok_of_subtree hs h, fun n hn => bound_of_eval_ok h (mem_symbols.1 hn)⟩
  · rw [symbols_eq_eraseDups, find?_eraseDups]
    exact find_unbound_of_eval h

/-- `&&` evaluates its right operand even when the left one is `false`. -/
example : (binary .logicalAnd (boolean false) (symbol "b")).eval alloc (fun _ => none) =
    .error (.unbound "b") := rfl

/-! ## The faults of evaluation -/

/-- The faults an operator meets are faults of the evaluating phase. -/
theorem phase_of_fits {k : Kind} {x : Except Fault Value} (hx : Fits k x) {f : Fault}
    (h : x = .error f) : f.phase? = some .evaluating := by
  subst h
  cases f <;> simp_all [Fault.IsValueFault, Fault.phase?]

theorem phase_of_applyUnary {o : Operator} {a : Value} {f : Fault}
    (h : applyUnary o a = .error f) : f.phase? = some .evaluating := by
  cases hk : o.unaryKind? a.kind with
  | none =>
    rw [applyUnary_of_unaryKind_none hk] at h
    cases h
    rfl
  | some k => exact phase_of_fits (applyUnary_of_unaryKind_some hk) h

theorem phase_of_applyBinary {o : Operator} {a b : Value} {f : Fault}
    (h : applyBinary alloc o a b = .error f) : f.phase? = some .evaluating := by
  cases hk : o.binaryKind? a.kind b.kind with
  | none =>
    rw [applyBinary_of_binaryKind_none hk] at h
    cases h
    rfl
  | some k => exact phase_of_fits (applyBinary_of_binaryKind_some hk) h

/-- Every fault of evaluation belongs to the evaluating phase. -/
theorem phase_of_eval_error {env : String → Option Value} {t : Tree} {f : Fault}
    (h : t.eval alloc env = .error f) : f.phase? = some .evaluating := by
  induction t with
  | number _ | string _ | boolean _ => cases h
  | symbol name =>
    cases he : env name with
    | some v => simp [eval, he] at h
    | none =>
      simp only [eval, he, Except.error.injEq] at h
      subst h
      rfl
  | unary op a ih =>
    cases ha : a.eval alloc env with
    | error g =>
      rw [eval, ha] at h
      cases h
      exact ih ha
    | ok va =>
      rw [eval, ha] at h
      exact phase_of_applyUnary h
  | binary op l r ihl ihr =>
    cases hl : l.eval alloc env with
    | error g =>
      rw [eval, hl] at h
      cases h
      exact ihl hl
    | ok vl =>
      rw [eval, hl] at h
      change r.eval alloc env >>= _ = _ at h
      cases hr : r.eval alloc env with
      | error g =>
        rw [hr] at h
        cases h
        exact ihr hr
      | ok vr =>
        rw [hr] at h
        exact phase_of_applyBinary h

end Tree

end ExprLang
