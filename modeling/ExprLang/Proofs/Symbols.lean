import ExprLang.Proofs.Bindings

/-!
# Free symbols in order of first appearance

`Tree.symbols` lists the names of a tree's symbol leaves in the order in which they first
appear from left to right, each once. That is all it is (`symbols_eq_iff`):

> `t.symbols = out` exactly when `out` holds the name of every symbol leaf of `t` and no other
> string, without repetition, in the order of each name's first occurrence in the leaf order
> `t.symbolOccurrences`.

Listing the symbols walks the tree from left to right and writes out a name when the walk
meets it for the first time (`ExprLang.Proofs.Collect`): what it writes out is the leaf-order
list with the repetitions dropped. Over an operator this is `symbols_binary`: the symbols of
the left operand, then those of the right operand that the left one has not listed already.
The order goes through the tree by that law, one case per constructor (`symbols_pairwise`);
with the members (`mem_symbols_iff`) and the absence of repetition (`Tree.symbols_nodup`) it
leaves no choice: two lists with the same members, both strictly ordered by the same key, are
equal.
-/

namespace ExprLang

/-- Dropping the later copies of entries and keeping the entries that pass a test can be done
in either order. -/
theorem eraseDups_filter {α : Type} [BEq α] [LawfulBEq α] (p : α → Bool) :
    (l : List α) → (l.filter p).eraseDups = l.eraseDups.filter p
  | [] => rfl
  | a :: as => by
    have ih := eraseDups_filter p (as.filter fun b => !b == a)
    rw [List.eraseDups_cons]
    cases hp : p a with
    | true =>
      rw [List.filter_cons_of_pos hp, List.eraseDups_cons, List.filter_cons_of_pos hp, ← ih,
        List.filter_filter, List.filter_filter]
      congr 2
      exact List.filter_congr fun b _ => Bool.and_comm _ _
    | false =>
      rw [List.filter_cons_of_neg (by simp [hp]), List.filter_cons_of_neg (by simp [hp]), ← ih,
        List.filter_filter]
      -- the copies of `a` that are dropped fail the test as `a` does
      congr 1
      apply List.filter_congr
      intro b _
      by_cases hb : b = a
      · subst hb
        simp [hp]
      · simp [hb]
termination_by l => l.length
decreasing_by exact Nat.lt_succ_of_le (List.length_filter_le _ _)

namespace Tree

/-- Over an operator, the symbols are those of the left operand, then those of the right
operand that the left one has not listed. -/
theorem symbols_binary (op : Operator) (l r : Tree) :
    (binary op l r).symbols = l.symbols ++ r.symbols.filter fun n => n ∉ l.symbols := by
  rw [symbols_eq_eraseDups, symbols_eq_eraseDups, symbols_eq_eraseDups, symbolOccurrences,
    List.eraseDups_append, List.removeAll, eraseDups_filter]
  congr 1
  apply List.filter_congr
  intro n _
  simp

theorem mem_symbolOccurrences_of_subtree {t : Tree} {n : String} (h : Subtree (.symbol n) t) :
    n ∈ t.symbolOccurrences := by
  induction h with
  | refl => simp [symbolOccurrences]
  | unary op _ ih => exact ih
  | left op r _ ih => exact List.mem_append_left _ ih
  | right op l _ ih => exact List.mem_append_right _ ih

/-- The symbols are the names of the symbol leaves. -/
theorem mem_symbols_iff {t : Tree} {n : String} : n ∈ t.symbols ↔ Subtree (.symbol n) t :=
  mem_symbols.trans ⟨subtree_symbol_of_mem, mem_symbolOccurrences_of_subtree⟩

/-- The symbols are ordered by the position of their first occurrence. -/
theorem symbols_pairwise (t : Tree) :
    t.symbols.Pairwise fun a b => t.symbolOccurrences.idxOf a < t.symbolOccurrences.idxOf b := by
  induction t with
  | number _ | string _ | boolean _ => exact List.Pairwise.nil
  | symbol name =>
    rw [symbols_eq_eraseDups]
    exact List.pairwise_singleton _ _
  | unary op a ih => exact ih
  | binary op l r ihl ihr =>
    rw [symbols_binary, List.pairwise_append]
    simp only [symbolOccurrences]
    -- a name listed by the left operand first occurs there; any other one only on the right
    have hleft : ∀ {a}, a ∈ l.symbols →
        (l.symbolOccurrences ++ r.symbolOccurrences).idxOf a = l.symbolOccurrences.idxOf a :=
      fun ha => List.idxOf_append_of_mem (mem_symbols.1 ha)
    have hright : ∀ {a}, a ∈ r.symbols.filter (fun n => n ∉ l.symbols) →
        (l.symbolOccurrences ++ r.symbolOccurrences).idxOf a =
          l.symbolOccurrences.length + r.symbolOccurrences.idxOf a := by
      intro a ha
      have hal : a ∉ l.symbols := by simpa using (List.mem_filter.1 ha).2
      exact List.idxOf_append_of_notMem (fun h => hal (mem_symbols.2 h))
    refine ⟨ihl.imp_of_mem fun ha hb h => ?_, (ihr.filter _).imp_of_mem fun ha hb h => ?_,
      fun a ha b hb => ?_⟩
    · rw [hleft ha, hleft hb]; exact h
    · rw [hright ha, hright hb]; omega
    · have := List.idxOf_lt_length_of_mem (mem_symbols.1 ha)
      rw [hleft ha, hright hb]
      omega

/-- The symbols of a tree are its symbol leaves' names in the order of their first appearance
from left to right, each once, and no other list is: `t.symbols = out` exactly when `out`
holds the name of every symbol leaf of `t` and no other string, has no repetition, and lists
`a` before `b` only when `a` first occurs before `b` in the leaf order. -/
theorem symbols_eq_iff (t : Tree) (out : List String) :
    t.symbols = out ↔
      (∀ n, n ∈ out ↔ Subtree (.symbol n) t) ∧ out.Nodup ∧
        out.Pairwise fun a b => t.symbolOccurrences.idxOf a < t.symbolOccurrences.idxOf b := by
  constructor
  · rintro rfl
    exact ⟨fun _ => mem_symbols_iff, symbols_nodup t, symbols_pairwise t⟩
  · rintro ⟨hmem, -, hord⟩
    -- two lists strictly ordered by first occurrence, with the same members, are equal
    have : Std.Irrefl fun a b : String =>
        t.symbolOccurrences.idxOf a < t.symbolOccurrences.idxOf b :=
      ⟨fun _ => Nat.lt_irrefl _⟩
    have : Std.Antisymm fun a b : String =>
        t.symbolOccurrences.idxOf a < t.symbolOccurrences.idxOf b :=
      ⟨fun _ _ h h' => absurd (Nat.lt_trans h h') (Nat.lt_irrefl _)⟩
    exact (symbols_pairwise t).eq_of_mem_iff hord fun n => mem_symbols_iff.trans (hmem n).symm

example : (binary .minus (binary .plus (symbol "x") (binary .times (symbol "x") (symbol "x")))
    (binary .divide (symbol "y") (symbol "x"))).symbols = ["x", "y"] := by
  rw [symbols_eq_eraseDups]
  decide

end Tree

end ExprLang
