import Mathlib
import ExprLang.Expression

/-!
# Parameter names stay unique

A parameter list holds each name at most once, whatever a caller does with it
(`names_stay_unique`): start from the empty list or collect any parameters, repeated names
included (`ofList`), and apply any sequence of `pushBack`, `pushFront`, `insert`, `erase`,
`rename`, `setDescription` and `setStatus` (`clear` gives the empty list again). Then

> the names are pairwise distinct, erasing a name leaves no parameter of that name, and the
> bindings that evaluation with parameters builds name every symbol at most once.

Each operation keeps the names distinct in its own way, and one lemma each says how: a
parameter found by `modifyNamed` is changed where it stands (`modifyNamed_eq_some`), and the
names stay the same unless the change is a renaming (`names_modifyNamed`); a name not found is
absent (`modifyNamed_eq_none`), so appending it is safe; `removeNamed` erases the first
occurrence of the name from the names (`names_removeNamed`), which in a list without
repetitions is the only one, so `pushFront` can put it first; and `rename` is refused when the
new name is another parameter's.
-/

namespace ExprLang.Params

/-- The names of the parameters, in order. -/
def names (ps : Params) : List String := ps.items.map (·.name)

/-- No name stands twice in the list. -/
def NamesUnique (ps : Params) : Prop := ps.names.Nodup

theorem contains_eq_true_iff {ps : Params} {name : String} :
    ps.contains name = true ↔ name ∈ ps.names := by
  simp [contains, names]

/-! ## The helpers that find a parameter by its name -/

/-- A parameter found by name is the first of that name, changed by `f` where it stands. -/
theorem modifyNamed_eq_some {name : String} {f : Parameter → Parameter} {l l' : List Parameter}
    (h : modifyNamed name f l = some l') :
    ∃ pre q post, l = pre ++ q :: post ∧ q.name = name ∧ l' = pre ++ f q :: post := by
  induction l generalizing l' with
  | nil => cases h
  | cons q qs ih =>
    simp only [modifyNamed] at h
    split at h
    · rename_i hq
      cases h
      exact ⟨[], q, qs, rfl, by simpa using hq, rfl⟩
    · obtain ⟨r, hr, rfl⟩ := Option.map_eq_some_iff.1 h
      obtain ⟨pre, q', post, rfl, hq', rfl⟩ := ih hr
      exact ⟨q :: pre, q', post, rfl, hq', rfl⟩

/-- No parameter is found when none has the name. -/
theorem modifyNamed_eq_none {name : String} {f : Parameter → Parameter} {l : List Parameter}
    (h : modifyNamed name f l = none) : name ∉ l.map (·.name) := by
  induction l with
  | nil => simp
  | cons q qs ih =>
    simp only [modifyNamed] at h
    split at h
    · cases h
    · rename_i hq
      simp only [Option.map_eq_none_iff] at h
      simp only [List.map_cons, List.mem_cons, not_or]
      exact ⟨fun he => hq (by simp [he]), ih h⟩

/-- A change that keeps the name of the parameter it finds keeps all the names. -/
theorem names_modifyNamed {name : String} {f : Parameter → Parameter} {l l' : List Parameter}
    (h : modifyNamed name f l = some l')
    (hf : ∀ q : Parameter, q.name = name → (f q).name = name) : l'.map (·.name) = l.map (·.name) := by
  obtain ⟨pre, q, post, rfl, hq, rfl⟩ := modifyNamed_eq_some h
  simp [hf q hq, hq]

/-- Removing the first parameter of a name erases the first occurrence of the name. -/
theorem names_removeNamed (name : String) (l : List Parameter) :
    (removeNamed name l).2.map (·.name) = (l.map (·.name)).erase name := by
  induction l with
  | nil => rfl
  | cons q qs ih =>
    simp only [removeNamed, List.map_cons, List.erase_cons]
    split <;> simp [ih]

theorem names_erase (ps : Params) (name : String) :
    (ps.erase name).2.names = ps.names.erase name :=
  names_removeNamed name ps.items

/-! ## Each operation keeps the names distinct -/

section
variable {ps : Params}

theorem namesUnique_empty : empty.NamesUnique := List.nodup_nil

/-- Keeping the names of a list keeps them distinct. -/
theorem NamesUnique.of_names {ps' : Params} (h : ps.NamesUnique) (he : ps'.names = ps.names) :
    ps'.NamesUnique := by
  unfold NamesUnique
  rw [he]
  exact h

/-- Appending a parameter whose name is absent keeps the names distinct. -/
theorem NamesUnique.append (h : ps.NamesUnique) {p : Parameter} (hp : p.name ∉ ps.names) :
    (⟨ps.items ++ [p]⟩ : Params).NamesUnique := by
  unfold NamesUnique names
  rw [List.map_append, List.nodup_append]
  refine ⟨h, List.nodup_singleton _, fun a ha b hb hab => ?_⟩
  simp only [List.map_cons, List.map_nil, List.mem_singleton] at hb
  subst hb hab
  exact hp ha

/-- A change found by name that keeps the name keeps the names distinct; without a parameter of
that name, the appended one is new. -/
theorem NamesUnique.modifyNamed_or_append (h : ps.NamesUnique) {name : String}
    {f : Parameter → Parameter} (hf : ∀ q : Parameter, q.name = name → (f q).name = name)
    {p : Parameter} (hp : p.name = name) :
    (match modifyNamed name f ps.items with
      | some items => (⟨items⟩ : Params)
      | none => ⟨ps.items ++ [p]⟩).NamesUnique := by
  split
  · rename_i items hm
    exact h.of_names (names_modifyNamed hm hf)
  · rename_i hm
    exact h.append (hp ▸ modifyNamed_eq_none hm)

theorem NamesUnique.pushBack (h : ps.NamesUnique) (p : Parameter) :
    (ps.pushBack p).NamesUnique := by
  unfold Params.pushBack
  exact h.modifyNamed_or_append (fun _ _ => rfl) rfl

theorem NamesUnique.insert (h : ps.NamesUnique) (name : String) (value : Param) :
    (ps.insert name value).NamesUnique := by
  unfold Params.insert
  refine h.modifyNamed_or_append ?_ rfl
  exact fun _ hq => hq

theorem NamesUnique.erase (h : ps.NamesUnique) (name : String) :
    (ps.erase name).2.NamesUnique := by
  unfold NamesUnique
  rw [names_erase]
  exact List.Nodup.erase name h

/-- Putting a parameter first drops the only other parameter of its name. -/
theorem NamesUnique.pushFront (h : ps.NamesUnique) (p : Parameter) :
    (ps.pushFront p).NamesUnique := by
  unfold NamesUnique
  change (p.name :: (ps.erase p.name).2.names).Nodup
  rw [names_erase, List.nodup_cons]
  exact ⟨List.Nodup.not_mem_erase h, List.Nodup.erase p.name h⟩

/-- A renaming is refused when the new name is another parameter's, so the new name is fresh
or the old one. -/
theorem NamesUnique.rename (h : ps.NamesUnique) (old new : String) :
    (ps.rename old new).2.NamesUnique := by
  unfold Params.rename
  split
  · exact h
  · rename_i hfree
    -- the new name is the old one, or no parameter's
    have hnew : old = new ∨ new ∉ ps.names := by
      by_cases hon : old = new
      · exact .inl hon
      · refine .inr fun hn => hfree ?_
        simp [hon, contains_eq_true_iff.2 hn]
    split
    · rename_i items hm
      obtain ⟨pre, q, post, hps, hq, rfl⟩ := modifyNamed_eq_some hm
      unfold NamesUnique names at h hnew ⊢
      simp only [hps, List.map_append, List.map_cons] at h hnew ⊢
      rcases hnew with rfl | hn
      · rwa [hq] at h
      · rw [List.nodup_middle, List.nodup_cons] at h ⊢
        refine ⟨fun hm' => hn ?_, h.2⟩
        simp only [List.mem_append, List.mem_cons] at hm' ⊢
        tauto
    · exact h

theorem NamesUnique.setDescription (h : ps.NamesUnique) (name description : String) :
    (ps.setDescription name description).2.NamesUnique := by
  unfold Params.setDescription
  split
  · rename_i items hm
    exact h.of_names (names_modifyNamed hm fun _ hq => hq)
  · exact h

theorem NamesUnique.setStatus (h : ps.NamesUnique) (name : String) (status : Bool) :
    (ps.setStatus name status).2.NamesUnique := by
  unfold Params.setStatus
  split
  · rename_i items hm
    exact h.of_names (names_modifyNamed hm fun _ hq => hq)
  · exact h

/-- Collecting parameters pushes each to the back, so a later one of a name takes the place of
the earlier one. -/
theorem namesUnique_ofList (l : List Parameter) : (ofList l).NamesUnique := by
  unfold ofList
  -- the fold starts from any list with distinct names
  suffices ∀ acc : Params, acc.NamesUnique → (l.foldl pushBack acc).NamesUnique from
    this empty namesUnique_empty
  induction l with
  | nil => exact fun _ h => h
  | cons p l ih => exact fun acc h => ih _ (h.pushBack p)

end

/-! ## Every list a caller builds -/

/-- The lists a caller can build: the empty list (also what `clear` leaves), a list collected
from any parameters, and what any operation leaves of a list built so. -/
inductive Reachable : Params → Prop
  | empty : Reachable empty
  | ofList (l : List Parameter) : Reachable (ofList l)
  | pushBack {ps : Params} (p : Parameter) : Reachable ps → Reachable (ps.pushBack p)
  | pushFront {ps : Params} (p : Parameter) : Reachable ps → Reachable (ps.pushFront p)
  | insert {ps : Params} (name : String) (value : Param) :
      Reachable ps → Reachable (ps.insert name value)
  | erase {ps : Params} (name : String) : Reachable ps → Reachable (ps.erase name).2
  | rename {ps : Params} (old new : String) : Reachable ps → Reachable (ps.rename old new).2
  | setDescription {ps : Params} (name description : String) :
      Reachable ps → Reachable (ps.setDescription name description).2
  | setStatus {ps : Params} (name : String) (status : Bool) :
      Reachable ps → Reachable (ps.setStatus name status).2

theorem Reachable.namesUnique {ps : Params} (h : Reachable ps) : ps.NamesUnique := by
  induction h with
  | empty => exact namesUnique_empty
  | ofList l => exact namesUnique_ofList l
  | pushBack p _ ih => exact ih.pushBack p
  | pushFront p _ ih => exact ih.pushFront p
  | insert name value _ ih => exact ih.insert name value
  | erase name _ ih => exact ih.erase name
  | rename old new _ ih => exact ih.rename old new
  | setDescription name description _ ih => exact ih.setDescription name description
  | setStatus name status _ ih => exact ih.setStatus name status

/-! ## The bindings of a parameter list -/

/-- Binding parameters one after another puts each name before the table made so far. -/
theorem keys_of_foldlM {items : List Parameter} {acc table : List (String × Value)}
    (h : items.foldlM (fun acc p => (p.value.toValue p.name).map fun v => (p.name, v) :: acc)
      acc = .ok table) :
    table.map (·.1) = (items.map (·.name)).reverse ++ acc.map (·.1) := by
  induction items generalizing acc with
  | nil => cases h; rfl
  | cons p ps ih =>
    rw [List.foldlM_cons] at h
    cases hp : p.value.toValue p.name with
    | error g => rw [hp] at h; cases h
    | ok v =>
      rw [hp] at h
      rw [ih h]
      simp

/-- The bindings of a parameter list name its parameters, the last one first. -/
theorem keys_bindings {ps : Params} {table : List (String × Value)}
    (h : Expression.bindings ps = .ok table) : table.map (·.1) = ps.names.reverse := by
  rw [keys_of_foldlM h]
  simp [names]

/-- Parameter names stay unique. In every list a caller builds, the names are pairwise
distinct, erasing a name leaves no parameter of that name, and the bindings that evaluation
with parameters builds from the list name every symbol at most once. -/
theorem names_stay_unique {ps : Params} (h : Reachable ps) :
    ps.names.Nodup ∧ (∀ name, name ∉ (ps.erase name).2.names) ∧
      ∀ table, Expression.bindings ps = .ok table → (table.map (·.1)).Nodup := by
  have hu : ps.NamesUnique := h.namesUnique
  refine ⟨hu, fun name => ?_, fun table ht => ?_⟩
  · rw [names_erase]
    exact List.Nodup.not_mem_erase hu
  · rw [keys_bindings ht]
    exact List.nodup_reverse.2 hu

/-- Two parameters `a`, collected with a `b` between them, then `a` renamed to `c` and `b` put
first again: a list a caller can build, so its names are distinct. -/
theorem names_stay_unique_after_rename :
    let ps := (((ofList [{ name := "a", value := .real 1 }, { name := "b", value := .real 2 },
      { name := "a", value := .text "x" }]).rename "a" "c").2.pushFront
        { name := "b", value := .undefined })
    Reachable ps ∧ ps.names.Nodup ∧ (∀ name, name ∉ (ps.erase name).2.names) ∧
      ∀ table, Expression.bindings ps = .ok table → (table.map (·.1)).Nodup :=
  have h := Reachable.pushFront _ (.rename "a" "c" (.ofList _))
  ⟨h, names_stay_unique h⟩

end ExprLang.Params
