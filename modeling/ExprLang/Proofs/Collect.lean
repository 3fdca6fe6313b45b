import Mathlib
import ExprLang.Tree

/-!
# Listing the free symbols

`Tree.symbols` walks the tree from left to right with two accumulators: the set of names seen
so far and the list of names written out. What the walk computes is the leaf-order list of
symbol names with every repetition dropped (`symbols_eq_eraseDups`):

> `t.symbols = t.symbolOccurrences.eraseDups`.

The set is used as a finite set and nothing more: the walk asks whether a name is in it and
inserts names, and `Std.HashSet.contains_empty` and `Std.HashSet.contains_insert` are all the
proofs need of it. What the walk keeps is that the set holds exactly the names written out
(`SeenOk`) and that no name is written out twice. One symbol leaf keeps both and writes out its
name only when it is new (`collect_symbol`); over a whole tree the left operand's output is the
right operand's start, so the same holds of the walk over any tree from any such start
(`collect_eq`). The membership and the absence of repetition of `Tree.symbols` follow
(`mem_symbols`, `symbols_nodup`).
-/

namespace ExprLang

section EraseDups
variable {α : Type} [BEq α] [LawfulBEq α]

/-- `eraseDups` leaves no element twice. -/
theorem nodup_eraseDups : (l : List α) → l.eraseDups.Nodup
  | [] => List.nodup_nil
  | a :: as => by
    rw [List.eraseDups_cons, List.nodup_cons]
    refine ⟨?_, nodup_eraseDups (as.filter fun b => !b == a)⟩
    rw [List.mem_eraseDups, List.mem_filter]
    simp
termination_by l => l.length
decreasing_by exact Nat.lt_succ_of_le (List.length_filter_le _ _)

/-- A list without repetition is its own `eraseDups`. -/
theorem eraseDups_of_nodup {l : List α} (h : l.Nodup) : l.eraseDups = l := by
  induction l with
  | nil => rfl
  | cons a as ih =>
    rw [List.nodup_cons] at h
    -- no later element is a copy of `a`, so the filter of `eraseDups_cons` keeps them all
    have hkeep : (as.filter fun b => !b == a) = as :=
      List.filter_eq_self.2 fun b hb => by
        have hba : b ≠ a := fun hba => h.1 (hba ▸ hb)
        simpa using hba
    rw [List.eraseDups_cons, hkeep, ih h.2]

/-- Dropping the repetitions of a prefix first changes nothing. -/
theorem eraseDups_eraseDups_append (l m : List α) :
    (l.eraseDups ++ m).eraseDups = (l ++ m).eraseDups := by
  rw [List.eraseDups_append, List.eraseDups_append, eraseDups_of_nodup (nodup_eraseDups l)]
  congr 2
  apply List.filter_congr
  intro x _
  simp [List.mem_eraseDups]

end EraseDups

namespace Tree

/-- The walk's set holds exactly the names it has written out. -/
def SeenOk (seen : Std.HashSet String) (out : List String) : Prop :=
  ∀ n, seen.contains n = true ↔ n ∈ out

theorem seenOk_empty : SeenOk ∅ [] := by
  intro n
  simp

/-- Remembering a name and writing it out keeps the set and the list in step. -/
theorem seenOk_insert {seen : Std.HashSet String} {out : List String} (h : SeenOk seen out)
    (name : String) : SeenOk (seen.insert name) (out ++ [name]) := by
  intro n
  rw [Std.HashSet.contains_insert, List.mem_append, List.mem_singleton, Bool.or_eq_true, h n,
    beq_iff_eq]
  exact or_comm.trans (or_congr_right eq_comm)

theorem collect_binary (op : Operator) (l r : Tree) (seen : Std.HashSet String)
    (out : List String) :
    (binary op l r).collect seen out = r.collect (l.collect seen out).1 (l.collect seen out).2 :=
  rfl

section
variable {seen : Std.HashSet String} {out : List String}

/-- At a symbol leaf the walk writes out the name exactly when it has not written it out
before, and its set still holds exactly the names written out. -/
theorem collect_symbol (h : SeenOk seen out) (hd : out.Nodup) (name : String) :
    SeenOk ((symbol name).collect seen out).1 ((symbol name).collect seen out).2 ∧
      ((symbol name).collect seen out).2 = (out ++ [name]).eraseDups := by
  rw [List.eraseDups_append, eraseDups_of_nodup hd]
  cases hc : seen.contains name with
  | true =>
    -- seen before: nothing changes, and the name is dropped as a repetition
    have hname : name ∈ out := (h name).1 hc
    simp [collect, hc, h, List.removeAll, hname]
  | false =>
    have hname : name ∉ out := fun hm => absurd ((h name).2 hm) (by simp [hc])
    simp only [collect, hc, Bool.false_eq_true, if_false]
    exact ⟨seenOk_insert h name,
      by simp [List.removeAll, hname, eraseDups_of_nodup (List.nodup_singleton name)]⟩

/-- The walk over a tree, from a set that holds exactly the names written out without
repetition, keeps that invariant and writes out the tree's new symbol names in leaf order,
each once: the output is the old one followed by the tree's symbols, repetitions dropped.
The induction follows the tree; over an operator the left operand's output is the right
operand's start. -/
theorem collect_eq (t : Tree) (h : SeenOk seen out) (hd : out.Nodup) :
    SeenOk (t.collect seen out).1 (t.collect seen out).2 ∧
      (t.collect seen out).2 = (out ++ t.symbolOccurrences).eraseDups := by
  induction t generalizing seen out with
  | number _ | string _ | boolean _ =>
    refine ⟨h, ?_⟩
    simp [collect, symbolOccurrences, eraseDups_of_nodup hd]
  | symbol name => exact collect_symbol h hd name
  | unary op a ih => exact ih h hd
  | binary op l r ihl ihr =>
    obtain ⟨hl, hlout⟩ := ihl h hd
    have hldup : (l.collect seen out).2.Nodup := hlout ▸ nodup_eraseDups _
    obtain ⟨hr, hrout⟩ := ihr hl hldup
    refine ⟨hr, ?_⟩
    rw [collect_binary, hrout, hlout, eraseDups_eraseDups_append, symbolOccurrences,
      List.append_assoc]

end

/-- The walk lists the symbol names in leaf order with every repetition dropped. -/
theorem symbols_eq_eraseDups (t : Tree) : t.symbols = t.symbolOccurrences.eraseDups :=
  (collect_eq t seenOk_empty List.nodup_nil).2

@[simp] theorem mem_symbols {t : Tree} {n : String} :
    n ∈ t.symbols ↔ n ∈ t.symbolOccurrences := by
  rw [symbols_eq_eraseDups]
  exact List.mem_eraseDups

theorem symbols_nodup (t : Tree) : t.symbols.Nodup := by
  rw [symbols_eq_eraseDups]
  exact nodup_eraseDups _

end Tree

end ExprLang
