import Mathlib
import ExprLang.Cli.Session
import ExprLang.Proofs.Status
import ExprLang.Proofs.Names

/-!
# The exit codes of a run

A run of the command line starts from the options that the argument parser hands over, and
all the program asks of the parser is its contract for the declared arguments
(`Options.Parsed`): every `--set` binding is what `readBinding` made of some argument. From
such options a session takes its expression from the arguments or else from the first input
line (`Cli.source`), and then (`run_exit_codes`):

> exits with `1` exactly when the expression is not ok; with `--symbols` prints the symbols one
> per line and exits with `0`; otherwise prints the prompt `name = ` once for each symbol that
> no `--set` binding names, in the order of the symbols (`Cli.asked`), binds each to the next
> non-empty input line (`Cli.answers`) read by `readParam`, exits with `2` exactly when the
> input runs out first, and otherwise exits with `0` and the value, or with `3` and a fault
> of evaluation that is never an unbound symbol nor a parameter that cannot be bound.

Three facts carry it.

* Asking (`ask_eq`): the walk that lists the symbols writes no name out twice
  (`Tree.symbols_nodup`), so a symbol asked for is never one bound earlier in the same run;
  the symbols asked are exactly those without a `--set` binding, and the `k`-th of them gets
  the `k`-th answer.
* Every parameter of the run binds to a value: `readParam` gives a number or a text, and by
  the parser's contract the `--set` bindings are all made by `readBinding`
  (`Options.Parsed.bindable`).
* Every symbol of the tree is named by a parameter, since the walk lists every symbol leaf
  (`Tree.mem_symbols`), so the first unbound symbol, which an unbound fault would name
  (`Tree.find_unbound_of_eval`), does not exist.
-/

namespace ExprLang

namespace Params

/-- A change found by name that keeps the name, or else an append under that name, adds exactly
that name. -/
theorem mem_names_modifyNamed_or_append {ps : Params} {name m : String}
    {f : Parameter → Parameter} (hf : ∀ q : Parameter, q.name = name → (f q).name = name)
    {p : Parameter} (hp : p.name = name) :
    m ∈ (match modifyNamed name f ps.items with
      | some items => (⟨items⟩ : Params)
      | none => ⟨ps.items ++ [p]⟩).names ↔ m ∈ ps.names ∨ m = name := by
  split
  · rename_i items hm
    -- the change found a parameter of that name, and kept every name
    obtain ⟨pre, q, post, hps, hq, -⟩ := modifyNamed_eq_some hm
    have hname : name ∈ ps.names := by simp [names, hps, hq]
    change m ∈ items.map (·.name) ↔ _
    rw [names_modifyNamed hm hf]
    constructor
    · exact .inl
    · rintro (h | rfl)
      · exact h
      · exact hname
  · simp [names, hp]

/-- Binding a name keeps the names and adds that one. -/
theorem mem_names_insert {ps : Params} {name m : String} {value : Param} :
    m ∈ (ps.insert name value).names ↔ m ∈ ps.names ∨ m = name := by
  unfold Params.insert
  refine mem_names_modifyNamed_or_append ?_ rfl
  exact fun _ hq => hq

/-- Pushing a parameter keeps the names and adds its own. -/
theorem mem_names_pushBack {ps : Params} {p : Parameter} {m : String} :
    m ∈ (ps.pushBack p).names ↔ m ∈ ps.names ∨ m = p.name := by
  unfold Params.pushBack
  exact mem_names_modifyNamed_or_append (fun _ _ => rfl) rfl

/-- A collected list names exactly the parameters collected. -/
theorem mem_names_ofList {l : List Parameter} {m : String} :
    m ∈ (ofList l).names ↔ m ∈ l.map (·.name) := by
  unfold ofList
  -- the fold starts from any list, whose names stay
  suffices ∀ acc : Params, m ∈ (l.foldl pushBack acc).names ↔ m ∈ acc.names ∨ m ∈ l.map (·.name) by
    simpa [names, empty] using this empty
  induction l with
  | nil => simp
  | cons p l ih =>
    intro acc
    rw [List.foldl_cons, ih, mem_names_pushBack]
    simp only [List.map_cons, List.mem_cons]
    tauto

/-- After a change found by name, or else an append, every parameter was there, is a changed
one, or is the appended one. -/
theorem mem_modifyNamed_or_append {ps : Params} {name : String} {f : Parameter → Parameter}
    {p q : Parameter}
    (h : q ∈ (match modifyNamed name f ps.items with
      | some items => (⟨items⟩ : Params)
      | none => ⟨ps.items ++ [p]⟩).items) :
    q ∈ ps.items ∨ (∃ r, q = f r) ∨ q = p := by
  split at h
  · rename_i items hm
    obtain ⟨pre, r, post, hps, -, rfl⟩ := modifyNamed_eq_some hm
    rw [hps]
    simp only [List.mem_append, List.mem_cons] at h ⊢
    rcases h with h | rfl | h
    · exact .inl (.inl h)
    · exact .inr (.inl ⟨r, rfl⟩)
    · exact .inl (.inr (.inr h))
  · simp only [List.mem_append, List.mem_singleton] at h
    rcases h with h | rfl
    · exact .inl h
    · exact .inr (.inr rfl)

/-- Every parameter of a list pushed to is the new one or was there. -/
theorem mem_pushBack {ps : Params} {p q : Parameter} (h : q ∈ (ps.pushBack p).items) :
    q ∈ ps.items ∨ q = p := by
  unfold Params.pushBack at h
  rcases mem_modifyNamed_or_append h with h | ⟨_, rfl⟩ | rfl
  · exact .inl h
  · exact .inr rfl
  · exact .inr rfl

theorem mem_ofList {l : List Parameter} {q : Parameter} (h : q ∈ (ofList l).items) : q ∈ l := by
  unfold ofList at h
  suffices ∀ acc : Params, q ∈ (l.foldl pushBack acc).items → q ∈ acc.items ∨ q ∈ l by
    simpa [empty] using this empty h
  clear h
  induction l with
  | nil => simp
  | cons p l ih =>
    intro acc hq
    rw [List.foldl_cons] at hq
    rcases ih _ hq with hq | hq
    · rcases mem_pushBack hq with hq | rfl
      · exact .inl hq
      · exact .inr List.mem_cons_self
    · exact .inr (List.mem_cons_of_mem _ hq)

/-- Binding a name changes the value of its parameter or appends a new one. -/
theorem mem_insert {ps : Params} {name : String} {value : Param} {q : Parameter}
    (h : q ∈ (ps.insert name value).items) :
    q ∈ ps.items ∨ ∃ r : Parameter, q = { r with value } := by
  unfold Params.insert at h
  rcases mem_modifyNamed_or_append h with h | ⟨r, rfl⟩ | rfl
  · exact .inl h
  · exact .inr ⟨r, rfl⟩
  · exact .inr ⟨{ name, value }, rfl⟩

end Params

namespace Cli

/-! ## Parameters that bind -/

/-- A parameter whose value binds its symbol: a number, an integer, a character or a text. -/
def Bindable (p : Parameter) : Prop :=
  ∃ v, p.value.toValue p.name = .ok v

/-- A value typed for a symbol is a number or a text, so it binds under any name. -/
theorem toValue_readParam (s name : String) : ∃ v, (readParam s).toValue name = .ok v := by
  unfold readParam
  split <;> exact ⟨_, rfl⟩

theorem bindable_of_readBinding {s : String} {p : Parameter} (h : readBinding s = .ok p) :
    Bindable p := by
  rw [readBinding] at h
  split at h
  · rename_i name value _
    by_cases hn : (Text.trimWhiteSpace (String.ofList name)).isEmpty = true
    · simp only [hn, if_true] at h
      exact absurd h (by simp)
    · simp only [hn, Bool.false_eq_true, if_false, Except.ok.injEq] at h
      rw [← h]
      unfold Bindable
      dsimp only
      exact toValue_readParam (String.ofList value) _
  · exact absurd h (by simp)

/-- By the argument parser's contract, every `--set` binding binds its symbol. -/
theorem Options.Parsed.bindable {o : Options} (h : o.Parsed) : ∀ p ∈ o.bindings, Bindable p := by
  intro p hp
  obtain ⟨s, hs⟩ := h p hp
  exact bindable_of_readBinding hs

/-! ## Asking for the values of symbols -/

/-- The answers in the input: its non-empty lines, in order. -/
def answers (lines : List String) : List String :=
  lines.filter fun l => !l.isEmpty

/-- The prompts for some symbols, one after another. -/
def prompts (names : List String) : String :=
  String.join (names.map (· ++ " = "))

/-- Binds each symbol of the pairs to the value typed on its line, in order. -/
def bindAnswers (ps : Params) (pairs : List (String × String)) : Params :=
  pairs.foldl (fun ps p => ps.insert p.1 (readParam p.2)) ps

/-- The symbols a run asks for: the free symbols that no `--set` binding names, in order. -/
def asked (o : Options) (e : Expression) : List String :=
  e.symbols.filter fun n => n ∉ o.bindings.map (·.name)

/-- Skipping empty lines first leaves the same answers. -/
theorem answers_dropWhile (lines : List String) :
    answers (lines.dropWhile String.isEmpty) = answers lines := by
  induction lines with
  | nil => rfl
  | cons l ls ih =>
    rw [List.dropWhile_cons]
    by_cases hl : l.isEmpty = true
    · rw [if_pos hl, ih]
      simp [answers, hl]
    · simp [hl]

/-- The line found after the empty ones is the first answer. -/
theorem answers_of_dropWhile_cons {lines rest : List String} {l : String}
    (h : lines.dropWhile String.isEmpty = l :: rest) : answers lines = l :: answers rest := by
  have hl : l.isEmpty = false := by
    have := List.head_dropWhile_not String.isEmpty (l := lines) (by simp [h])
    simpa [h] using this
  rw [← answers_dropWhile, h]
  simp [answers, hl]

/-- Binding a symbol changes whether another is bound in no way. -/
theorem contains_insert_of_ne {ps : Params} {name m : String} {value : Param} (hm : m ≠ name) :
    (ps.insert name value).contains m = ps.contains m := by
  apply Bool.eq_iff_iff.2
  rw [Params.contains_eq_true_iff, Params.contains_eq_true_iff, Params.mem_names_insert]
  simp [hm]

/-- Asking for distinct symbols, one after another. The symbols asked are those not bound
before asking began, since a symbol bound while asking is never asked again; the `k`-th symbol
asked gets the `k`-th answer; and when the answers run out, the symbol asked for next is the
one the input ended without. -/
theorem ask_eq {names : List String} (hn : names.Nodup) {a : Asking} (hm : a.missing = none) :
    let qs := names.filter fun n => !a.params.contains n
    let as := answers a.lines
    (ask names a).shown = a.shown ++ prompts (qs.take (as.length + 1)) ∧
    (ask names a).missing = qs[as.length]? ∧
    (ask names a).params = bindAnswers a.params (qs.zip as) := by
  induction names generalizing a with
  | nil => simp [ask, prompts, bindAnswers, hm]
  | cons n ns ih =>
    rw [List.nodup_cons] at hn
    by_cases hc : a.params.contains n = true
    · -- bound before asking: not asked
      simpa [ask, hc] using ih hn.2 hm
    · have hc' : a.params.contains n = false := by simpa using hc
      cases hd : a.lines.dropWhile String.isEmpty with
      | nil =>
        -- the input ends without a value for `n`
        have has : answers a.lines = [] := by rw [← answers_dropWhile, hd]; rfl
        simp [ask, hc', hd, has, prompts, bindAnswers, String.append_assoc]
      | cons l rest =>
        -- `n` takes the first answer; the names after it are asked as before
        have hih := @ih hn.2
          ⟨a.params.insert n (readParam l), rest, a.shown ++ n ++ " = ", a.missing⟩ hm
        have hfilter : (ns.filter fun m => !(a.params.insert n (readParam l)).contains m) =
            ns.filter fun m => !a.params.contains m := by
          apply List.filter_congr
          intro m hm'
          have hne : m ≠ n := fun he => hn.1 (he ▸ hm')
          rw [contains_insert_of_ne hne]
        rw [hfilter] at hih
        obtain ⟨h₁, h₂, h₃⟩ := hih
        simp only [ask, hc', hd, Bool.false_eq_true, if_false, List.filter_cons, Bool.not_false,
          if_true, answers_of_dropWhile_cons hd, List.length_cons, List.take_succ_cons,
          List.getElem?_cons_succ, List.zip_cons_cons]
        refine ⟨?_, h₂, h₃⟩
        rw [h₁]
        simp [prompts, String.append_assoc]

/-! ## Every symbol is bound -/

/-- The parameters of a list collected from bindings that bind all bind. -/
theorem bindable_ofList {l : List Parameter} (h : ∀ p ∈ l, Bindable p) :
    ∀ p ∈ (Params.ofList l).items, Bindable p :=
  fun _ hp => h _ (Params.mem_ofList hp)

/-- Binding answers keeps every parameter bindable: each value typed is a number or a text. -/
theorem bindable_bindAnswers {ps : Params} (h : ∀ p ∈ ps.items, Bindable p)
    (pairs : List (String × String)) : ∀ p ∈ (bindAnswers ps pairs).items, Bindable p := by
  induction pairs generalizing ps with
  | nil => exact h
  | cons q qs ih =>
    refine ih fun p hp => ?_
    rcases Params.mem_insert hp with hp | ⟨r, rfl⟩
    · exact h p hp
    · unfold Bindable
      dsimp only
      exact toValue_readParam q.2 r.name

/-- Binding answers names every symbol bound before and every symbol of the pairs. -/
theorem mem_names_bindAnswers {ps : Params} {pairs : List (String × String)} {n : String}
    (h : n ∈ ps.names ∨ n ∈ pairs.map (·.1)) : n ∈ (bindAnswers ps pairs).names := by
  induction pairs generalizing ps with
  | nil => simpa [bindAnswers] using h
  | cons q qs ih =>
    apply ih
    rw [Params.mem_names_insert]
    simp only [List.map_cons, List.mem_cons] at h
    tauto

/-- A parameter list whose parameters all bind gives bindings. -/
theorem bindings_eq_ok {ps : Params} (h : ∀ p ∈ ps.items, Bindable p) :
    ∃ table, Expression.bindings ps = .ok table := by
  unfold Expression.bindings
  generalize ([] : List (String × Value)) = acc
  obtain ⟨items⟩ := ps
  dsimp only at h ⊢
  induction items generalizing acc with
  | nil => exact ⟨acc, rfl⟩
  | cons p ps ih =>
    obtain ⟨v, hv⟩ := h p List.mem_cons_self
    rw [List.foldlM_cons, hv]
    exact ih _ fun q hq => h q (List.mem_cons_of_mem _ hq)

/-- The bindings of a list look up every name of the list. -/
theorem lookup_isSome {ps : Params} {table : List (String × Value)}
    (h : Expression.bindings ps = .ok table) {n : String} (hn : n ∈ ps.names) :
    (Expression.lookup table n).isSome := by
  have hkeys := Params.keys_bindings h
  have hmem : n ∈ table.map (·.1) := by rw [hkeys]; simpa using hn
  obtain ⟨x, hx, rfl⟩ := List.mem_map.1 hmem
  simp only [Expression.lookup, Option.isSome_map, List.find?_isSome]
  exact ⟨x, hx, by simp⟩

/-- Evaluating with parameters that all bind and name every symbol of the tree meets no
unbound symbol and no parameter that cannot be bound: its faults are faults of evaluating. -/
theorem evalParams_fault {alloc : Allocator} {e : Expression} {t : Tree} (ht : e.tree = some t)
    {ps : Params}
    (hb : ∀ p ∈ ps.items, Bindable p) (hs : ∀ n ∈ t.symbols, n ∈ ps.names) {f : Fault}
    (hf : (e.evalParams alloc ps).value.2 = .error f) :
    f.phase? = some .evaluating ∧ ∀ n, f ≠ .unbound n := by
  obtain ⟨table, htable⟩ := bindings_eq_ok hb
  have hv : (e.evalParams alloc ps).value.2 = t.eval alloc (Expression.lookup table) := by
    simp [Expression.evalParams, Expression.eval, ht, htable]
  rw [hv] at hf
  refine ⟨Tree.phase_of_eval_error hf, fun n hn => ?_⟩
  subst hn
  -- the first unbound symbol would be a symbol of the tree that the list names
  have hfind := Tree.find_unbound_of_eval hf
  have hocc : n ∈ t.symbolOccurrences := List.mem_of_find?_eq_some hfind
  have hnone := List.find?_some hfind
  have hsome := lookup_isSome htable (hs n (Tree.mem_symbols.2 hocc))
  simp only [Option.isNone_iff_eq_none] at hnone
  rw [hnone] at hsome
  cases hsome

/-! ## A run, step by step -/

section Session
variable {alloc : Allocator} {o : Options} {input src : String} {rest : List String}

/-- Once the argument parser hands over options, the run is the session with them. -/
theorem run_of_ok {readArgs : List String → Except Stop Options} {args : List String}
    (h : readArgs args = .ok o) : run alloc readArgs args input = session alloc o input := by
  simp only [run, h]

/-- A session exits with `1` exactly when its expression is not ok: every other way it ends
has another code. -/
theorem session_code_eq_one (hsrc : source o.expression (inputLines input) = (src, rest)) :
    (session alloc o input).code = 1 ↔ (Expression.ofText src o.limit).value.isOk = false := by
  unfold session
  rw [hsrc]
  dsimp only
  cases (Expression.ofText src o.limit).value.isOk
  · simp
  · simp only [Bool.not_true, Bool.false_eq_true, if_false]
    split
    · simp
    · split
      · simp
      · split <;> simp

/-- With `--symbols`, a session whose expression is ok prints the symbols, one per line. -/
theorem session_symbols (hsrc : source o.expression (inputLines input) = (src, rest))
    (hok : (Expression.ofText src o.limit).value.isOk = true) (hsym : o.symbolsOnly = true) :
    (session alloc o input).code = 0 ∧
      (session alloc o input).stdout =
        String.join ((Expression.ofText src o.limit).value.symbols.map (· ++ "\n")) := by
  unfold session
  rw [hsrc]
  simp [hok, hsym]

/-- The symbols that asking for values asks for are those that no `--set` binding names. -/
theorem filter_not_contains_ofList (o : Options) (names : List String) :
    (names.filter fun n => !(Params.ofList o.bindings).contains n) =
      names.filter fun n => n ∉ o.bindings.map (·.name) := by
  apply List.filter_congr
  intro n _
  have hiff : (Params.ofList o.bindings).contains n = true ↔ n ∈ o.bindings.map (·.name) :=
    Params.contains_eq_true_iff.trans Params.mem_names_ofList
  by_cases hn : n ∈ o.bindings.map (·.name)
  · simp [hiff.2 hn, hn]
  · simp [Bool.eq_false_iff.2 (mt hiff.1 hn), hn]

/-- After the symbols are asked for: when the answers run out first, the session exits with `2`
after the prompts up to the symbol without an answer; otherwise it evaluates with the `--set`
bindings and the answers, and exits with `0` and the value, or with `3` and a fault of
evaluating that is neither an unbound symbol nor a parameter that cannot be bound. -/
theorem session_asking (hb : ∀ p ∈ o.bindings, Bindable p)
    (hsrc : source o.expression (inputLines input) = (src, rest))
    (hok : (Expression.ofText src o.limit).value.isOk = true) (hsym : o.symbolsOnly = false) :
    let e := (Expression.ofText src o.limit).value
    let qs := asked o e
    let as := answers rest
    (as.length < qs.length →
      (session alloc o input).code = 2 ∧
        (session alloc o input).stdout = prompts (qs.take (as.length + 1))) ∧
    (qs.length ≤ as.length →
      match (e.evalParams alloc (bindAnswers (Params.ofList o.bindings) (qs.zip as))).value.2 with
      | .ok v => (session alloc o input).code = 0 ∧
          (session alloc o input).stdout = prompts qs ++ v.text ++ "\n"
      | .error f => (session alloc o input).code = 3 ∧
          (session alloc o input).stdout = prompts qs ∧
          (∃ log, (session alloc o input).stderr = log ++ "Error: " ++ f.message ++ "\n") ∧
          (∀ n, f ≠ .unbound n) ∧ ∀ n, f ≠ .unsupportedParam n) := by
  dsimp only
  unfold session
  rw [hsrc]
  simp only [hok, hsym, Bool.not_true, Bool.false_eq_true, if_false]
  set e := (Expression.ofText src o.limit).value with he
  set qs := asked o e with hqs
  set as := answers rest with has
  -- the expression has a tree, whose symbols are distinct
  have hc : e.Consistent := Expression.consistent_parse _ _
  obtain ⟨t, ht⟩ := Option.isSome_iff_exists.1 (hc.tree_isSome hok)
  have hsyms : e.symbols = t.symbols := (hc.withTree t ht).1
  have hnodup : e.symbols.Nodup := hsyms ▸ Tree.symbols_nodup t
  -- asking, by `ask_eq`
  obtain ⟨hshown, hmissing, hparams⟩ :=
    @ask_eq e.symbols hnodup { params := Params.ofList o.bindings, lines := rest } rfl
  rw [filter_not_contains_ofList] at hshown hmissing hparams
  dsimp only at hshown hmissing hparams
  have hq : (e.symbols.filter fun n => n ∉ o.bindings.map (·.name)) = qs := rfl
  rw [hq, ← has] at hshown hmissing hparams
  rw [hmissing]
  refine ⟨fun hlt => ?_, fun hle => ?_⟩
  · rw [List.getElem?_eq_getElem hlt]
    exact ⟨rfl, by rw [hshown, String.empty_append]⟩
  · rw [List.getElem?_eq_none hle, hparams]
    have hprompts : (ask e.symbols { params := Params.ofList o.bindings, lines := rest }).shown =
        prompts qs := by
      rw [hshown, String.empty_append, List.take_of_length_le (by omega)]
    dsimp only
    rw [hprompts]
    cases hf : (e.evalParams alloc (bindAnswers (Params.ofList o.bindings) (qs.zip as))).value.2 with
    | ok v => exact ⟨rfl, rfl⟩
    | error f =>
      -- every parameter binds, and every symbol of the tree is named by one
      have hbind := bindable_bindAnswers (bindable_ofList hb) (qs.zip as)
      have hnamed : ∀ n ∈ t.symbols,
          n ∈ (bindAnswers (Params.ofList o.bindings) (qs.zip as)).names := by
        intro n hn
        apply mem_names_bindAnswers
        by_cases hset : n ∈ o.bindings.map (·.name)
        · exact .inl (Params.mem_names_ofList.2 hset)
        · refine .inr ?_
          rw [List.map_fst_zip hle]
          exact List.mem_filter.2 ⟨hsyms ▸ hn, by simpa using hset⟩
      obtain ⟨hphase, hunbound⟩ := evalParams_fault ht hbind hnamed hf
      refine ⟨rfl, rfl, ⟨_, rfl⟩, hunbound, fun n hn => ?_⟩
      subst hn
      cases hphase

end Session

/-! ## The exit codes -/

/-- What a run with the options `o` does on the input `input`, as the command line documents it.
The expression `e` comes from the arguments or else from the first input line; `qs` are its
symbols that no `--set` binding names, and `as` the non-empty input lines after the expression,
which answer them in order. -/
def Outcomes (alloc : Allocator) (o : Options) (input : String) (out : Outcome) : Prop :=
  let e := (Expression.ofText (source o.expression (inputLines input)).1 o.limit).value
  let qs := asked o e
  let as := answers (source o.expression (inputLines input)).2
  (out.code = 1 ↔ e.isOk = false) ∧
  (e.isOk = true → o.symbolsOnly = true →
    out.code = 0 ∧ out.stdout = String.join (e.symbols.map (· ++ "\n"))) ∧
  (e.isOk = true → o.symbolsOnly = false →
    (out.code = 2 ↔ as.length < qs.length) ∧
    (as.length < qs.length → out.stdout = prompts (qs.take (as.length + 1))) ∧
    (qs.length ≤ as.length →
      match (e.evalParams alloc (bindAnswers (Params.ofList o.bindings) (qs.zip as))).value.2 with
      | .ok v => out.code = 0 ∧ out.stdout = prompts qs ++ v.text ++ "\n"
      | .error f => out.code = 3 ∧ out.stdout = prompts qs ∧
          (∃ log, out.stderr = log ++ "Error: " ++ f.message ++ "\n") ∧
          (∀ n, f ≠ .unbound n) ∧ ∀ n, f ≠ .unsupportedParam n))

/-- Every session with options that the argument parser can hand over has the documented
outcomes, for every input. -/
theorem run_exit_codes (alloc : Allocator) {o : Options} (ho : o.Parsed) (input : String) :
    Outcomes alloc o input (session alloc o input) := by
  unfold Outcomes
  intro e qs as
  have hsrc : source o.expression (inputLines input) =
      ((source o.expression (inputLines input)).1, (source o.expression (inputLines input)).2) :=
    rfl
  refine ⟨session_code_eq_one hsrc, session_symbols hsrc, fun hok hsym => ?_⟩
  obtain ⟨hshort, hanswered⟩ := session_asking ho.bindable hsrc hok hsym
  refine ⟨⟨fun h2 => ?_, fun hlt => (hshort hlt).1⟩, fun hlt => (hshort hlt).2, hanswered⟩
  -- with an answer for every symbol the session exits with `0` or `3`, never with `2`
  by_contra hlt
  have hend := hanswered (Nat.le_of_not_lt hlt)
  split at hend
  · rw [hend.1] at h2
    cases h2
  · rw [hend.1] at h2
    cases h2

/-- `--set y=three` binds `y`, and the answer `2` on the input is asked for `x`. -/
theorem run_exit_codes_repeat :
    ({ expression := some "x * y", bindings := [{ name := "y", value := .text "three" }] } :
      Options).Parsed ∧
    Outcomes (.upTo isizeMax (Nat.le_refl _))
      { expression := some "x * y", bindings := [{ name := "y", value := .text "three" }] }
      "2\n" (session (.upTo isizeMax (Nat.le_refl _))
        { expression := some "x * y", bindings := [{ name := "y", value := .text "three" }] }
        "2\n") :=
  have h : ({ expression := some "x * y", bindings := [{ name := "y", value := .text "three" }] } :
      Options).Parsed := by
    intro p hp
    rw [List.mem_singleton] at hp
    subst hp
    exact ⟨"y=three", rfl⟩
  ⟨h, run_exit_codes _ h "2\n"⟩

end Cli

end ExprLang
