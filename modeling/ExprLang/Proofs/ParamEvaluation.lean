import Mathlib
import ExprLang.Proofs.Edits

/-!
# Evaluating against a parameter list

An expression with a tree evaluates against a parameter list by binding every parameter
first, in list order (`evalParams_binds_or_refuses`):

* the first parameter that is boolean or undefined (`Param.unbindable`) is refused, under its
  own name, whether or not the tree uses it: the expression keeps its tree and its symbols and
  remembers the refusal;
* otherwise the tree is evaluated with each name bound to the value of its parameter
  (`Params.valueOf`): reals and integers as numbers, texts and characters as strings.

Only names and values count: the descriptions and enabled flags of the parameters change
nothing. An expression without a tree gives the fault it remembers, whatever the list.

The table of bindings is built by a fold that puts each parameter's entry first
(`foldlM_bind_ok`); in a list with distinct names the entry found for a name is the one of its
only parameter (`lookup_bindings`).
-/

namespace ExprLang

/-- An outcome gives a value as an option exactly when it is that value. -/
theorem toOption_eq_some_iff {ε α : Type} {x : Except ε α} {a : α} :
    x.toOption = some a ↔ x = .ok a := by
  cases x <;> simp [Except.toOption]

namespace Param

/-- Booleans and undefined parameters have no value to bind a symbol to. -/
def unbindable : Param → Bool
  | boolean _ | undefined => true
  | _ => false

/-- A parameter is refused exactly when it is boolean or undefined, and then under its name. -/
theorem toValue_eq_error_iff {p : Param} {name : String} {f : Fault} :
    p.toValue name = .error f ↔ p.unbindable = true ∧ f = .unsupportedParam name := by
  cases p <;> simp [toValue, unbindable, eq_comm]

/-- Every other parameter binds to a value. -/
theorem exists_toValue_eq_ok {p : Param} (h : p.unbindable = false) (name : String) :
    ∃ v, p.toValue name = .ok v := by
  cases p <;> simp_all [toValue, unbindable]

end Param

/-- The value each name of a parameter list is bound to: that of its parameter. -/
def Params.valueOf (ps : Params) (n : String) : Option Value :=
  (ps.find? n).bind fun p => (p.value.toValue p.name).toOption

namespace Expression

/-- The entry of a parameter in the bindings: its name with its value, when it binds. -/
def entry (p : Parameter) : Option (String × Value) :=
  (p.value.toValue p.name).toOption.map (p.name, ·)

/-- One step of binding parameters: the parameter's entry before the table made so far. -/
def bindStep (acc : List (String × Value)) (p : Parameter) :
    Except Fault (List (String × Value)) :=
  (p.value.toValue p.name).map fun v => (p.name, v) :: acc

theorem bindings_eq_foldlM (ps : Params) : bindings ps = ps.items.foldlM bindStep [] := rfl

/-! ## The fold that binds parameters -/

section
variable {items : List Parameter}

/-- Binding stops at the first parameter that cannot be bound, refused under its name. -/
theorem foldlM_bind_error {p : Parameter} (h : items.find? (·.value.unbindable) = some p)
    (acc : List (String × Value)) :
    items.foldlM bindStep acc = .error (.unsupportedParam p.name) := by
  induction items generalizing acc with
  | nil => cases h
  | cons q qs ih =>
    rw [List.foldlM_cons]
    cases hq : q.value.unbindable with
    | true =>
      simp only [List.find?_cons, hq, Option.some.injEq] at h
      subst h
      have hstep : bindStep acc q = .error (.unsupportedParam q.name) := by
        simp [bindStep, Param.toValue_eq_error_iff.2 ⟨hq, rfl⟩, Except.map]
      rw [hstep]
      rfl
    | false =>
      rw [List.find?_cons_of_neg (by simp [hq])] at h
      obtain ⟨v, hv⟩ := Param.exists_toValue_eq_ok hq q.name
      have hstep : bindStep acc q = .ok ((q.name, v) :: acc) := by
        simp [bindStep, hv, Except.map]
      rw [hstep]
      exact ih h _

/-- When every parameter binds, the table holds their entries, the last one first. -/
theorem foldlM_bind_ok (h : items.find? (·.value.unbindable) = none)
    (acc : List (String × Value)) :
    items.foldlM bindStep acc = .ok ((items.filterMap entry).reverse ++ acc) := by
  induction items generalizing acc with
  | nil => rfl
  | cons q qs ih =>
    have hq : q.value.unbindable = false := by simpa using (List.find?_eq_none.1 h) q (by simp)
    rw [List.find?_cons_of_neg (by simp [hq])] at h
    obtain ⟨v, hv⟩ := Param.exists_toValue_eq_ok hq q.name
    have hstep : bindStep acc q = .ok ((q.name, v) :: acc) := by
      simp [bindStep, hv, Except.map]
    have hentry : entry q = some (q.name, v) := by
      simp [entry, hv, Except.toOption]
    rw [List.foldlM_cons, hstep]
    show qs.foldlM bindStep ((q.name, v) :: acc) = _
    rw [ih h, List.filterMap_cons_some hentry]
    simp

end

/-- The bindings of a list whose parameters all bind: their entries, the last one first. -/
theorem bindings_of_find?_eq_none {ps : Params} (h : ps.items.find? (·.value.unbindable) = none) :
    bindings ps = .ok (ps.items.filterMap entry).reverse := by
  rw [bindings_eq_foldlM, foldlM_bind_ok h, List.append_nil]

/-! ## Looking a name up -/

/-- In a table whose names are distinct, a name has a value exactly when the table holds that
entry. -/
theorem lookup_eq_some_iff {table : List (String × Value)} (hk : (table.map (·.1)).Nodup)
    {n : String} {v : Value} : lookup table n = some v ↔ (n, v) ∈ table := by
  unfold lookup
  constructor
  · intro h
    obtain ⟨e, he, rfl⟩ := Option.map_eq_some_iff.1 h
    obtain ⟨hmem, rfl⟩ := (find?_key_eq_some_iff hk).1 he
    exact hmem
  · intro h
    rw [(find?_key_eq_some_iff hk).2 ⟨h, rfl⟩]
    rfl

/-- The name of a parameter list is bound to a value exactly when a parameter of that name
binds to it. -/
theorem valueOf_eq_some_iff {ps : Params} (hu : ps.NamesUnique) {n : String} {v : Value} :
    ps.valueOf n = some v ↔ ∃ p ∈ ps.items, p.name = n ∧ p.value.toValue p.name = .ok v := by
  unfold Params.valueOf
  constructor
  · intro h
    obtain ⟨p, hp, hv⟩ := Option.bind_eq_some_iff.1 h
    obtain ⟨hmem, hname⟩ := (Params.find?_eq_some_iff hu).1 hp
    exact ⟨p, hmem, hname, toOption_eq_some_iff.1 hv⟩
  · rintro ⟨p, hmem, hname, hv⟩
    rw [(Params.find?_eq_some_iff hu).2 ⟨hmem, hname⟩]
    simp [hv, Except.toOption]

/-- In a list with distinct names, the table of a list whose parameters all bind looks each
name up as the list does. -/
theorem lookup_bindings {ps : Params} (hu : ps.NamesUnique)
    (h : ps.items.find? (·.value.unbindable) = none) :
    lookup (ps.items.filterMap entry).reverse = ps.valueOf := by
  have hk : (((ps.items.filterMap entry).reverse).map (·.1)).Nodup := by
    rw [Params.keys_bindings (bindings_of_find?_eq_none h)]
    exact List.nodup_reverse.2 hu
  funext n
  apply Option.ext
  intro v
  rw [lookup_eq_some_iff hk, valueOf_eq_some_iff hu, List.mem_reverse, List.mem_filterMap]
  constructor
  · rintro ⟨p, hmem, he⟩
    obtain ⟨w, hw, hpw⟩ := Option.map_eq_some_iff.1 he
    cases hpw
    exact ⟨p, hmem, rfl, toOption_eq_some_iff.1 hw⟩
  · rintro ⟨p, hmem, rfl, hv⟩
    exact ⟨p, hmem, by simp [entry, hv, Except.toOption]⟩

/-! ## Evaluating -/

/-- Evaluating with parameters reads the list only through its bindings. -/
theorem evalParams_congr {alloc : Allocator} {e : Expression} {ps ps' : Params} (h : bindings ps' = bindings ps) :
    e.evalParams alloc ps' = e.evalParams alloc ps := by
  simp only [evalParams, h]

/-- The bindings of a list read only the names and values of its parameters. -/
theorem bindings_congr {ps ps' : Params}
    (h : ps'.items.map (fun p => (p.name, p.value)) = ps.items.map (fun p => (p.name, p.value))) :
    bindings ps' = bindings ps := by
  -- the fold steps through the names and values alone
  have hfold : ∀ qs : Params, bindings qs =
      (qs.items.map fun p => (p.name, p.value)).foldlM
        (fun acc nv => (nv.2.toValue nv.1).map fun v => (nv.1, v) :: acc) [] := by
    intro qs
    rw [bindings_eq_foldlM, List.foldlM_map]
    rfl
  rw [hfold, hfold ps, h]

/-- Evaluating against a parameter list. With a tree, the parameters are bound in list order:
the first that is boolean or undefined is refused under its name, whether or not the tree uses
it, and the expression keeps its tree and symbols and remembers the refusal; when all bind, the
evaluation is that of the tree with each name bound to its parameter's value. The descriptions
and enabled flags of the parameters change nothing. Without a tree the fault remembered is
returned, whatever the list. -/
theorem evalParams_binds_or_refuses (e : Expression) (alloc : Allocator) {ps : Params}
    (hu : ps.NamesUnique) :
    (∀ t, e.tree = some t →
      (∀ p, ps.items.find? (·.value.unbindable) = some p →
        (e.evalParams alloc ps).value =
          ({ e with fault := some (.unsupportedParam p.name) },
            .error (.unsupportedParam p.name))) ∧
      (ps.items.find? (·.value.unbindable) = none →
        e.evalParams alloc ps = e.eval alloc ps.valueOf ∧
          (e.evalParams alloc ps).value.2 = t.eval alloc ps.valueOf)) ∧
    (∀ ps' : Params, ps'.items.map (fun p => (p.name, p.value)) =
        ps.items.map (fun p => (p.name, p.value)) →
      e.evalParams alloc ps' = e.evalParams alloc ps) ∧
    (e.tree = none → ∀ f, e.fault = some f → (e.evalParams alloc ps).value = (e, .error f)) := by
  refine ⟨fun t ht => ⟨fun p hp => ?_, fun hnone => ?_⟩,
    fun ps' h => evalParams_congr (bindings_congr h), fun ht f hf => ?_⟩
  · have hb : bindings ps = .error (.unsupportedParam p.name) := foldlM_bind_error hp []
    simp [evalParams, ht, hb]
  · have heval : e.evalParams alloc ps = e.eval alloc ps.valueOf := by
      simp only [evalParams, ht, bindings_of_find?_eq_none hnone, lookup_bindings hu hnone]
    refine ⟨heval, ?_⟩
    rw [heval]
    simp [eval, ht]
  · simp [evalParams, eval, ht, hf]

/-- The expression `x * 2` against `x` bound to the integer 3 and a boolean `flag` that it does
not use: a list with distinct names, so the flag is refused. -/
theorem evalParams_binds_or_refuses_flag :
    let e := (ofText "x * 2").value
    let alloc : Allocator := .upTo isizeMax (Nat.le_refl _)
    let ps := Params.ofList [{ name := "x", value := .integer 3 },
      { name := "flag", value := .boolean true }]
    ps.NamesUnique ∧
    (∀ t, e.tree = some t →
      (∀ p, ps.items.find? (·.value.unbindable) = some p →
        (e.evalParams alloc ps).value =
          ({ e with fault := some (.unsupportedParam p.name) },
            .error (.unsupportedParam p.name))) ∧
      (ps.items.find? (·.value.unbindable) = none →
        e.evalParams alloc ps = e.eval alloc ps.valueOf ∧
          (e.evalParams alloc ps).value.2 = t.eval alloc ps.valueOf)) ∧
    (∀ ps' : Params, ps'.items.map (fun p => (p.name, p.value)) =
        ps.items.map (fun p => (p.name, p.value)) →
      e.evalParams alloc ps' = e.evalParams alloc ps) ∧
    (e.tree = none → ∀ f, e.fault = some f → (e.evalParams alloc ps).value = (e, .error f)) :=
  have hu := Params.namesUnique_ofList _
  ⟨hu, evalParams_binds_or_refuses _ _ hu⟩

end Expression

end ExprLang
