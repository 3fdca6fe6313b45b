import Mathlib
import ExprLang.Proofs.Names

/-!
# What each operation leaves of a parameter list

An operation on a parameter list with distinct names changes the parameter it names and
nothing else (`edits_change_only_their_parameter`). Every other parameter is found as before,
and the others keep their order with nothing new between them (`Frame`). The named parameter
is

* replaced where it stands, or appended when its name is new (`pushBack`; `insert` changes
  only the value, so the description and the flag stay);
* put first, wherever it stood before (`pushFront`), or removed (`erase`);
* renamed, or given a description or a flag, where it stands, when the operation reports
  success. When it reports failure the list is exactly as it was (`Edited`).

Collecting parameters (`ofList`) keeps each name once, where it first occurs, with the last
parameter given for it (`names_ofList`, `find?_ofList`).

Everything goes through two helpers: `modifyNamed` changes the first parameter of a name where
it stands, and in a list without repeated names `removeNamed` removes every parameter of the
name (`removeNamed_snd_of_nodup`).
-/

namespace ExprLang

/-- In a list whose keys are distinct, an entry is found by its key exactly when it is in the
list. -/
theorem find?_key_eq_some_iff {α β : Type} [BEq β] [LawfulBEq β] {key : α → β} {l : List α}
    (hn : (l.map key).Nodup) {k : β} {r : α} :
    l.find? (key · == k) = some r ↔ r ∈ l ∧ key r = k := by
  constructor
  · intro h
    exact ⟨List.mem_of_find?_eq_some h, by simpa using List.find?_some h⟩
  · rintro ⟨hr, rfl⟩
    have hsome : (l.find? (key · == key r)).isSome := List.find?_isSome.2 ⟨r, hr, by simp⟩
    obtain ⟨r', hr'⟩ := Option.isSome_iff_exists.1 hsome
    have hk : key r' = key r := by simpa using List.find?_some hr'
    rw [hr', List.inj_on_of_nodup_map hn (List.mem_of_find?_eq_some hr') hr hk]

namespace Params

/-! ## Frames -/

/-- What an operation on the parameters named in `touched` leaves of the others: each is found
as before, and they stand in the same order with nothing new between them. -/
structure Frame (touched : List String) (ps ps' : Params) : Prop where
  find? : ∀ m, m ∉ touched → ps'.find? m = ps.find? m
  others : ps'.items.filter (fun q => q.name ∉ touched) =
    ps.items.filter (fun q => q.name ∉ touched)

section
variable {touched : List String} {ps ps' : Params}

/-- A name that is not touched is found among the untouched parameters as among all. -/
theorem find?_filter_untouched {m : String} (hm : m ∉ touched) (l : List Parameter) :
    (l.filter fun q => q.name ∉ touched).find? (·.name == m) = l.find? (·.name == m) := by
  rw [List.find?_filter]
  congr 1
  funext q
  by_cases hq : q.name = m
  · simp [hq, hm]
  · simp [hq]

/-- The untouched parameters in their order decide how each of them is found. -/
theorem Frame.of_others
    (h : ps'.items.filter (fun q => q.name ∉ touched) =
      ps.items.filter (fun q => q.name ∉ touched)) :
    Frame touched ps ps' where
  find? m hm := by
    unfold Params.find?
    rw [← find?_filter_untouched hm, h, find?_filter_untouched hm]
  others := h

theorem Frame.refl (touched : List String) (ps : Params) : Frame touched ps ps :=
  .of_others rfl

end

/-! ## The shapes of a change -/

/-- `ps'` is `ps` with its parameter named `name` replaced, where it stands, by `f` of it. -/
def ReplacedAt (name : String) (f : Parameter → Parameter) (ps ps' : Params) : Prop :=
  ∃ pre q post, ps.items = pre ++ q :: post ∧ q.name = name ∧ ps'.items = pre ++ f q :: post

/-- `ps'` is `ps` with `p` appended, no parameter of `ps` having `p`'s name. -/
def Appended (p : Parameter) (ps ps' : Params) : Prop :=
  p.name ∉ ps.names ∧ ps'.items = ps.items ++ [p]

/-- What an edit that reports its success leaves: on success, the parameter named `name`
replaced where it stands by `f` of it; on failure, the list exactly as it was. -/
def Edited (name : String) (f : Parameter → Parameter) (ps : Params) (r : Bool × Params) :
    Prop :=
  (r.1 = true → ReplacedAt name f ps r.2) ∧ (r.1 = false → r.2 = ps)

section
variable {touched : List String} {ps ps' : Params} {name : String} {f : Parameter → Parameter}

/-- Replacing a touched parameter by one of a touched name leaves the others. -/
theorem ReplacedAt.frame (h : ReplacedAt name f ps ps') (hname : name ∈ touched)
    (hf : ∀ q : Parameter, q.name = name → (f q).name ∈ touched) : Frame touched ps ps' := by
  obtain ⟨pre, q, post, hps, hq, hps'⟩ := h
  refine .of_others ?_
  rw [hps, hps', List.filter_append, List.filter_append,
    List.filter_cons_of_neg (by simpa using hf q hq), List.filter_cons_of_neg (by simpa [hq])]

theorem Appended.frame {p : Parameter} (h : Appended p ps ps') (hp : p.name ∈ touched) :
    Frame touched ps ps' := by
  refine .of_others ?_
  rw [h.2, List.filter_append]
  simp [hp]

theorem Edited.frame {r : Bool × Params} (h : Edited name f ps r) (hname : name ∈ touched)
    (hf : ∀ q : Parameter, q.name = name → (f q).name ∈ touched) : Frame touched ps r.2 := by
  cases hr : r.1
  · rw [h.2 hr]
    exact .refl touched ps
  · exact (h.1 hr).frame hname hf

/-- The parameter a replacement changes is in the list. -/
theorem ReplacedAt.mem_names (h : ReplacedAt name f ps ps') : name ∈ ps.names := by
  obtain ⟨pre, q, post, hps, hq, -⟩ := h
  simp [names, hps, ← hq]

/-- An edit through `modifyNamed` succeeds exactly when the name is in the list; it changes the
parameter found, and nothing when there is none. -/
theorem edited_of_modifyNamed {r : Bool × Params}
    (hsome : ∀ items, modifyNamed name f ps.items = some items → r = (true, ⟨items⟩))
    (hnone : modifyNamed name f ps.items = none → r = (false, ps)) :
    Edited name f ps r ∧ (r.1 = false ↔ name ∉ ps.names) := by
  cases hm : modifyNamed name f ps.items with
  | none =>
    rw [hnone hm]
    exact ⟨⟨nofun, fun _ => rfl⟩, iff_of_true rfl (modifyNamed_eq_none hm)⟩
  | some items =>
    rw [hsome items hm]
    have hr : ReplacedAt name f ps ⟨items⟩ := modifyNamed_eq_some hm
    exact ⟨⟨fun _ => hr, nofun⟩, iff_of_false nofun (not_not.2 hr.mem_names)⟩

end

/-! ## The parameter of a name -/

section
variable {ps : Params}

/-- In a list with distinct names, a parameter is found by its name exactly when it is in the
list. -/
theorem find?_eq_some_iff (hu : ps.NamesUnique) {n : String} {q : Parameter} :
    ps.find? n = some q ↔ q ∈ ps.items ∧ q.name = n :=
  find?_key_eq_some_iff hu

/-- `removeNamed` gives the first parameter of the name. -/
theorem removeNamed_fst (name : String) (l : List Parameter) :
    (removeNamed name l).1 = l.find? (·.name == name) := by
  induction l with
  | nil => rfl
  | cons q qs ih =>
    by_cases hq : q.name = name
    · simp [removeNamed, hq]
    · rw [List.find?_cons_of_neg (by simpa using hq), ← ih]
      simp [removeNamed, hq]

/-- In a list without repeated names, `removeNamed` removes every parameter of the name. -/
theorem removeNamed_snd_of_nodup {name : String} {l : List Parameter}
    (h : (l.map (·.name)).Nodup) : (removeNamed name l).2 = l.filter (·.name != name) := by
  induction l with
  | nil => rfl
  | cons q qs ih =>
    rw [List.map_cons, List.nodup_cons] at h
    by_cases hq : q.name = name
    · -- `q` is the only parameter of the name, so nothing after it is removed
      have hrest : qs.filter (·.name != name) = qs := by
        refine List.filter_eq_self.2 fun r hr => ?_
        have hrq : r.name ≠ q.name := fun he => h.1 (he ▸ List.mem_map_of_mem hr)
        simpa [hq] using hrq
      simp [removeNamed, hq, hrest]
    · simp [removeNamed, hq, ih h.2]

end

/-! ## One lemma per operation -/

section
variable (ps : Params)

theorem pushBack_cases (p : Parameter) :
    ReplacedAt p.name (fun _ => p) ps (ps.pushBack p) ∨ Appended p ps (ps.pushBack p) := by
  unfold pushBack
  split
  · exact .inl (modifyNamed_eq_some ‹_›)
  · exact .inr ⟨modifyNamed_eq_none ‹_›, rfl⟩

theorem frame_pushBack (p : Parameter) : Frame [p.name] ps (ps.pushBack p) := by
  rcases pushBack_cases ps p with h | h
  · exact h.frame (List.mem_singleton_self _) fun _ _ => List.mem_singleton_self _
  · exact h.frame (List.mem_singleton_self _)

theorem insert_cases (name : String) (value : Param) :
    ReplacedAt name (fun q => { q with value }) ps (ps.insert name value) ∨
      Appended { name, value } ps (ps.insert name value) := by
  unfold Params.insert
  split
  · exact .inl (modifyNamed_eq_some ‹_›)
  · exact .inr ⟨modifyNamed_eq_none ‹_›, rfl⟩

theorem frame_insert (name : String) (value : Param) : Frame [name] ps (ps.insert name value) := by
  rcases insert_cases ps name value with h | h
  · exact h.frame (List.mem_singleton_self _) fun _ hq => by simp [hq]
  · exact h.frame (List.mem_singleton_self _)

theorem erase_fst (name : String) : (ps.erase name).1 = ps.find? name :=
  removeNamed_fst name ps.items

theorem erase_items {ps : Params} (hu : ps.NamesUnique) (name : String) :
    (ps.erase name).2.items = ps.items.filter (·.name != name) :=
  removeNamed_snd_of_nodup hu

/-- Erasing a name that is not there leaves the list as it was. -/
theorem erase_of_find?_eq_none {ps : Params} (hu : ps.NamesUnique) {name : String}
    (h : (ps.erase name).1 = none) : (ps.erase name).2 = ps := by
  rw [erase_fst, find?, List.find?_eq_none] at h
  have hitems : (ps.erase name).2.items = ps.items := by
    rw [erase_items hu]
    exact List.filter_eq_self.2 fun q hq => by simpa using h q hq
  exact congrArg Params.mk hitems

theorem frame_erase {ps : Params} (hu : ps.NamesUnique) (name : String) :
    Frame [name] ps (ps.erase name).2 := by
  refine .of_others ?_
  rw [erase_items hu, List.filter_filter]
  congr 1
  funext q
  by_cases hq : q.name = name <;> simp [hq]

theorem pushFront_items {ps : Params} (hu : ps.NamesUnique) (p : Parameter) :
    (ps.pushFront p).items = p :: ps.items.filter (·.name != p.name) := by
  rw [← erase_items hu]
  rfl

theorem frame_pushFront {ps : Params} (hu : ps.NamesUnique) (p : Parameter) :
    Frame [p.name] ps (ps.pushFront p) := by
  refine .of_others ?_
  rw [pushFront_items hu, List.filter_cons_of_neg (by simp), ← erase_items hu]
  exact (frame_erase hu p.name).others

theorem edited_rename (old new : String) :
    Edited old (fun q => { q with name := new }) ps (ps.rename old new) ∧
      ((ps.rename old new).1 = false ↔ (old ≠ new ∧ new ∈ ps.names) ∨ old ∉ ps.names) := by
  by_cases htaken : old ≠ new ∧ new ∈ ps.names
  · have hr : ps.rename old new = (false, ps) := by
      simp [rename, htaken.1, contains_eq_true_iff.2 htaken.2]
    rw [hr]
    exact ⟨⟨nofun, fun _ => rfl⟩, iff_of_true rfl (.inl htaken)⟩
  · have hfree : (old != new && ps.contains new) = false := by
      by_cases hon : old = new
      · simp [hon]
      · simpa [hon, ← contains_eq_true_iff] using htaken
    have hedit : Edited old (fun q => { q with name := new }) ps (ps.rename old new) ∧
        ((ps.rename old new).1 = false ↔ old ∉ ps.names) :=
      edited_of_modifyNamed (fun items h => by simp [rename, hfree, h])
        (fun h => by simp [rename, hfree, h])
    exact ⟨hedit.1, hedit.2.trans (or_iff_right htaken).symm⟩

theorem frame_rename (old new : String) : Frame [old, new] ps (ps.rename old new).2 :=
  (edited_rename ps old new).1.frame (by simp) fun _ _ => by simp

theorem edited_setDescription (name description : String) :
    Edited name (fun q => { q with description }) ps (ps.setDescription name description) ∧
      ((ps.setDescription name description).1 = false ↔ name ∉ ps.names) :=
  edited_of_modifyNamed (fun _ h => by simp [setDescription, h])
    (fun h => by simp [setDescription, h])

theorem frame_setDescription (name description : String) :
    Frame [name] ps (ps.setDescription name description).2 :=
  (edited_setDescription ps name description).1.frame (List.mem_singleton_self _)
    fun _ hq => by simp [hq]

theorem edited_setStatus (name : String) (status : Bool) :
    Edited name (fun q => { q with status }) ps (ps.setStatus name status) ∧
      ((ps.setStatus name status).1 = false ↔ name ∉ ps.names) :=
  edited_of_modifyNamed (fun _ h => by simp [setStatus, h]) (fun h => by simp [setStatus, h])

theorem frame_setStatus (name : String) (status : Bool) :
    Frame [name] ps (ps.setStatus name status).2 :=
  (edited_setStatus ps name status).1.frame (List.mem_singleton_self _) fun _ hq => by simp [hq]

end

/-! ## Collecting parameters -/

theorem ofList_append_singleton (l : List Parameter) (p : Parameter) :
    ofList (l ++ [p]) = (ofList l).pushBack p := by
  simp [ofList, List.foldl_append]

/-- Pushing to the back adds the name at the end unless it is there already. -/
theorem names_pushBack (ps : Params) (p : Parameter) :
    (ps.pushBack p).names = if p.name ∈ ps.names then ps.names else ps.names ++ [p.name] := by
  rcases pushBack_cases ps p with h | ⟨hn, hps'⟩
  · rw [if_pos h.mem_names]
    obtain ⟨pre, q, post, hps, hq, hps'⟩ := h
    simp [names, hps, hps', hq]
  · rw [if_neg hn]
    simp [names, hps']

/-- In a list with distinct names, the parameter pushed to the back is the one found by its
name, and every other name is found as before. -/
theorem find?_pushBack {ps : Params} (hu : ps.NamesUnique) (p : Parameter) (n : String) :
    (ps.pushBack p).find? n = if p.name = n then some p else ps.find? n := by
  split
  · rename_i hn
    refine (find?_eq_some_iff (hu.pushBack p)).2 ⟨?_, hn⟩
    rcases pushBack_cases ps p with ⟨pre, q, post, -, -, hps'⟩ | ⟨-, hps'⟩ <;> simp [hps']
  · exact (frame_pushBack ps p).find? n (by simpa [eq_comm] using ‹¬p.name = n›)

/-- Collecting parameters keeps each name once, in the order of first occurrence. -/
theorem names_ofList (l : List Parameter) : (ofList l).names = (l.map (·.name)).eraseDups := by
  induction l using List.reverseRecOn with
  | nil => rfl
  | append_singleton l p ih =>
    rw [ofList_append_singleton, names_pushBack, ih, List.map_append, List.eraseDups_append]
    by_cases hp : ∃ a ∈ l, a.name = p.name
    · simp [hp, List.removeAll]
    · simp [hp, List.removeAll, List.eraseDups_cons]

/-- Collecting parameters keeps, for each name, the last parameter given for it. -/
theorem find?_ofList (l : List Parameter) (n : String) :
    (ofList l).find? n = (l.filter (·.name == n)).getLast? := by
  induction l using List.reverseRecOn with
  | nil => rfl
  | append_singleton l p ih =>
    rw [ofList_append_singleton, find?_pushBack (namesUnique_ofList l), ih]
    by_cases hp : p.name = n <;> simp [hp, List.filter_append]

/-! ## Every operation -/

/-- Each operation on a parameter list with distinct names changes only the parameter it
names. Every other parameter is found as before and keeps its place among the others; the
named one is replaced where it stands or appended (`pushBack`, and `insert`, which changes the
value alone), put first (`pushFront`), removed (`erase`, which gives it back), or renamed or
given a description or a flag where it stands. An edit that reports failure (a renaming onto
another parameter's name or from a missing one, a description or a flag for a missing name)
and an erasure that finds nothing leave the list exactly as it was. Collecting parameters
keeps each name once, where it first occurs, with the last parameter given for it. -/
theorem edits_change_only_their_parameter {ps : Params} (hu : ps.NamesUnique) :
    (∀ p, (ReplacedAt p.name (fun _ => p) ps (ps.pushBack p) ∨ Appended p ps (ps.pushBack p)) ∧
      Frame [p.name] ps (ps.pushBack p)) ∧
    (∀ p, (ps.pushFront p).items = p :: ps.items.filter (·.name != p.name) ∧
      Frame [p.name] ps (ps.pushFront p)) ∧
    (∀ name value, (ReplacedAt name (fun q => { q with value }) ps (ps.insert name value) ∨
        Appended { name, value } ps (ps.insert name value)) ∧
      Frame [name] ps (ps.insert name value)) ∧
    (∀ name, (ps.erase name).1 = ps.find? name ∧
      (ps.erase name).2.items = ps.items.filter (·.name != name) ∧
      ((ps.erase name).1 = none → (ps.erase name).2 = ps) ∧ Frame [name] ps (ps.erase name).2) ∧
    (∀ old new, Edited old (fun q => { q with name := new }) ps (ps.rename old new) ∧
      ((ps.rename old new).1 = false ↔ (old ≠ new ∧ new ∈ ps.names) ∨ old ∉ ps.names) ∧
      Frame [old, new] ps (ps.rename old new).2) ∧
    (∀ name description,
      Edited name (fun q => { q with description }) ps (ps.setDescription name description) ∧
      ((ps.setDescription name description).1 = false ↔ name ∉ ps.names) ∧
      Frame [name] ps (ps.setDescription name description).2) ∧
    (∀ name status, Edited name (fun q => { q with status }) ps (ps.setStatus name status) ∧
      ((ps.setStatus name status).1 = false ↔ name ∉ ps.names) ∧
      Frame [name] ps (ps.setStatus name status).2) ∧
    ∀ l : List Parameter, (ofList l).names = (l.map (·.name)).eraseDups ∧
      ∀ n, (ofList l).find? n = (l.filter (·.name == n)).getLast? := by
  refine ⟨fun p => ⟨pushBack_cases ps p, frame_pushBack ps p⟩,
    fun p => ⟨pushFront_items hu p, frame_pushFront hu p⟩,
    fun name value => ⟨insert_cases ps name value, frame_insert ps name value⟩,
    fun name => ⟨erase_fst ps name, erase_items hu name, erase_of_find?_eq_none hu,
      frame_erase hu name⟩,
    fun old new => ⟨(edited_rename ps old new).1, (edited_rename ps old new).2,
      frame_rename ps old new⟩,
    fun name description => ⟨(edited_setDescription ps name description).1,
      (edited_setDescription ps name description).2, frame_setDescription ps name description⟩,
    fun name status => ⟨(edited_setStatus ps name status).1, (edited_setStatus ps name status).2,
      frame_setStatus ps name status⟩,
    fun l => ⟨names_ofList l, find?_ofList l⟩⟩

/-- Three parameters collected, `a` given twice: a list with distinct names, so each operation
on it changes only the parameter it names. -/
theorem edits_change_only_their_parameter_collected :
    let ps := ofList [{ name := "a", value := .real 1 }, { name := "b", value := .boolean true },
      { name := "a", value := .text "x", description := "again" }]
    ps.NamesUnique ∧
    (∀ p, (ReplacedAt p.name (fun _ => p) ps (ps.pushBack p) ∨ Appended p ps (ps.pushBack p)) ∧
      Frame [p.name] ps (ps.pushBack p)) ∧
    (∀ p, (ps.pushFront p).items = p :: ps.items.filter (·.name != p.name) ∧
      Frame [p.name] ps (ps.pushFront p)) ∧
    (∀ name value, (ReplacedAt name (fun q => { q with value }) ps (ps.insert name value) ∨
        Appended { name, value } ps (ps.insert name value)) ∧
      Frame [name] ps (ps.insert name value)) ∧
    (∀ name, (ps.erase name).1 = ps.find? name ∧
      (ps.erase name).2.items = ps.items.filter (·.name != name) ∧
      ((ps.erase name).1 = none → (ps.erase name).2 = ps) ∧ Frame [name] ps (ps.erase name).2) ∧
    (∀ old new, Edited old (fun q => { q with name := new }) ps (ps.rename old new) ∧
      ((ps.rename old new).1 = false ↔ (old ≠ new ∧ new ∈ ps.names) ∨ old ∉ ps.names) ∧
      Frame [old, new] ps (ps.rename old new).2) ∧
    (∀ name description,
      Edited name (fun q => { q with description }) ps (ps.setDescription name description) ∧
      ((ps.setDescription name description).1 = false ↔ name ∉ ps.names) ∧
      Frame [name] ps (ps.setDescription name description).2) ∧
    (∀ name status, Edited name (fun q => { q with status }) ps (ps.setStatus name status) ∧
      ((ps.setStatus name status).1 = false ↔ name ∉ ps.names) ∧
      Frame [name] ps (ps.setStatus name status).2) ∧
    ∀ l : List Parameter, (ofList l).names = (l.map (·.name)).eraseDups ∧
      ∀ n, (ofList l).find? n = (l.filter (·.name == n)).getLast? :=
  have hu := namesUnique_ofList _
  ⟨hu, edits_change_only_their_parameter hu⟩

end Params

end ExprLang
