import ExprLang.Tree.Parse

/-!
# The grammar levels, one equation each

`Parse.run` returns each outcome together with a proof that it gives back no more lexemes
than it was given. The proof is what makes the recursion terminate, and it is in the way of
every later argument about what a level reads. This file states what each level does as an
equation on the outcome alone, `run_expression` to `run_atom`: a fault of a part is passed
on (`Parse.andThen`) and a tree is built from the trees of the parts (`Parse.mapTree`).
Later proofs rewrite with these equations and never unfold `Parse.run`.

`operatorAhead` gets the same treatment: `operatorAhead_eq_some` says what an operator found
ahead is, and `operatorAhead_of_op` and `operatorAhead_eq_none` say when one is found.
-/

namespace ExprLang.Parse

/-- What a level gives: a tree or a fault, and the lexemes after what it read. -/
abbrev Outcome := Except Fault Tree × List Lexeme

/-- Goes on from the outcome of a first part: a fault ends the level where it arose, a tree
goes to `k` with the lexemes after it. -/
def andThen (o : Outcome) (k : Tree → List Lexeme → Outcome) : Outcome :=
  match o with
  | (.ok t, r) => k t r
  | (.error f, r) => (.error f, r)

/-- An outcome with `f` applied to its tree. -/
def mapTree (f : Tree → Tree) (o : Outcome) : Outcome :=
  (o.1.map f, o.2)

/-- A bracket closing after the expression inside it: the expression's tree when `)` comes
next, else `expect ')'` at the lookahead. -/
def closeParen : Outcome → Outcome
  | (.ok e, l :: r) =>
    match l.token with
    | .closeParen => (.ok e, r)
    | _ => (.error (malformed "expect ')'" (l :: r)), l :: r)
  | (.ok _, []) => (.error (malformed "expect ')'" []), [])
  | (.error f, r) => (.error f, r)

@[simp] theorem andThen_ok {t : Tree} {r : List Lexeme} {k : Tree → List Lexeme → Outcome} :
    andThen (.ok t, r) k = k t r := rfl

@[simp] theorem andThen_error {f : Fault} {r : List Lexeme} {k : Tree → List Lexeme → Outcome} :
    andThen (.error f, r) k = (.error f, r) := rfl

/-- The outcome of a level together with its length bound, from the outcome alone. -/
theorem run_eq_mk {limit : Nat} {lv : Level} {depth : Nat} {ls : List Lexeme} {o : Outcome}
    (h : (run limit lv depth ls).1 = o) : ∃ ho, run limit lv depth ls = ⟨o, ho⟩ :=
  ⟨h ▸ (run limit lv depth ls).2, Subtype.ext h⟩

/-- The lexemes a level leaves are no more than it was given. -/
theorem length_rest_le {limit : Nat} {lv : Level} {depth : Nat} {ls : List Lexeme}
    {res : Except Fault Tree} {rest : List Lexeme} (h : (run limit lv depth ls).1 = (res, rest)) :
    rest.length ≤ ls.length := by
  have hle := (run limit lv depth ls).2
  rw [h] at hle
  exact hle

/-! ## Operators ahead -/

section Ahead

variable {p : Operator → Bool} {ls : List Lexeme} {o : Operator}

/-- An operator found ahead is the token of the first lexeme, and the rest follows it. -/
theorem operatorAhead_eq_some {r : List Lexeme} {hr : r.length < ls.length}
    (h : operatorAhead p ls = some (o, ⟨r, hr⟩)) :
    ∃ l, ls = l :: r ∧ l.token = .op o ∧ p o = true := by
  cases ls with
  | nil => cases h
  | cons l rest =>
    dsimp only [operatorAhead] at h
    split at h
    · rename_i o' ho
      split at h
      · cases h
        exact ⟨l, rfl, ho, by assumption⟩
      · cases h
    · cases h

/-- An operator that `p` accepts at the front is found. -/
theorem operatorAhead_of_op {l : Lexeme} {r : List Lexeme} (hl : l.token = .op o)
    (ho : p o = true) : ∃ hr, operatorAhead p (l :: r) = some (o, ⟨r, hr⟩) := by
  refine ⟨by simp, ?_⟩
  simp [operatorAhead, hl, ho]

/-- Nothing is found ahead when the first lexeme is no operator that `p` accepts. -/
theorem operatorAhead_eq_none (h : ∀ l r o, ls = l :: r → l.token = .op o → p o = false) :
    operatorAhead p ls = none := by
  match ls, h with
  | [], _ => rfl
  | l :: r, h =>
    dsimp only [operatorAhead]
    split
    · rename_i o ho
      simp [h l r o rfl ho]
    · rfl

end Ahead

/-! ## One equation per level -/

section Equations

variable {limit depth : Nat} {ls : List Lexeme}

theorem run_expression :
    (run limit .expression depth ls).1 =
      if limit ≤ depth then (.error (.tooDeep limit), ls)
      else andThen (run limit .comparison (depth + 1) ls).1 fun left rest =>
        match operatorAhead Operator.isLogical rest with
        | some (o, r) => mapTree (.binary o left) (run limit .expression (depth + 1) r.1).1
        | none => (.ok left, rest) := by
  rw [run.eq_def]
  dsimp only
  split
  · rfl
  · rcases run limit .comparison (depth + 1) ls with ⟨⟨f | left, rest⟩, h⟩
    · rfl
    · dsimp only [andThen]
      rcases operatorAhead Operator.isLogical rest with _ | ⟨o, r, hr⟩ <;> rfl

theorem run_comparison :
    (run limit .comparison depth ls).1 =
      andThen (run limit .sum depth ls).1 fun left rest =>
        match operatorAhead Operator.isComparison rest with
        | some (o, r) => mapTree (.binary o left) (run limit .sum depth r.1).1
        | none => (.ok left, rest) := by
  rw [run.eq_def]
  dsimp only
  rcases run limit .sum depth ls with ⟨⟨f | left, rest⟩, h⟩
  · rfl
  · dsimp only [andThen]
    rcases operatorAhead Operator.isComparison rest with _ | ⟨o, r, hr⟩ <;> rfl

theorem run_sum :
    (run limit .sum depth ls).1 =
      andThen (run limit .product depth ls).1 fun left rest =>
        (run limit (.sumTail left) depth rest).1 := by
  rw [run.eq_def]
  dsimp only
  rcases run limit .product depth ls with ⟨⟨f | left, rest⟩, h⟩ <;> rfl

theorem run_sumTail (acc : Tree) :
    (run limit (.sumTail acc) depth ls).1 =
      match operatorAhead isAdditive ls with
      | some (o, r) => andThen (run limit .product depth r.1).1 fun right r' =>
          (run limit (.sumTail (.binary o acc right)) depth r').1
      | none => (.ok acc, ls) := by
  rw [run.eq_def]
  dsimp only
  rcases operatorAhead isAdditive ls with _ | ⟨o, r, hr⟩
  · rfl
  · dsimp only
    rcases run limit .product depth r with ⟨⟨f | right, r'⟩, h⟩ <;> rfl

theorem run_product :
    (run limit .product depth ls).1 =
      andThen (run limit (.signed .power) depth ls).1 fun left rest =>
        (run limit (.productTail left) depth rest).1 := by
  rw [run.eq_def]
  dsimp only
  rcases run limit (.signed .power) depth ls with ⟨⟨f | left, rest⟩, h⟩ <;> rfl

theorem run_productTail (acc : Tree) :
    (run limit (.productTail acc) depth ls).1 =
      match operatorAhead isMultiplicative ls with
      | some (o, r) => andThen (run limit (.signed .power) depth r.1).1 fun right r' =>
          (run limit (.productTail (.binary o acc right)) depth r').1
      | none => (.ok acc, ls) := by
  rw [run.eq_def]
  dsimp only
  rcases operatorAhead isMultiplicative ls with _ | ⟨o, r, hr⟩
  · rfl
  · dsimp only
    rcases run limit (.signed .power) depth r with ⟨⟨f | right, r'⟩, h⟩ <;> rfl

theorem run_signed (inner : Level) :
    (run limit (.signed inner) depth ls).1 =
      match operatorAhead (fun _ => true) ls with
      | some (o, r) =>
        if o.isPrefix then
          if limit ≤ depth then (.error (.tooDeep limit), r.1)
          else mapTree (applyPrefix o) (run limit inner (depth + 1) r.1).1
        else (.error (malformed ("unacceptable operator '" ++ o.spelling ++ "'") ls), ls)
      | none => (run limit inner depth ls).1 := by
  rw [run.eq_def]
  dsimp only
  rcases operatorAhead (fun _ => true) ls with _ | ⟨o, r, hr⟩
  · rfl
  · dsimp only
    split
    · split
      · rfl
      · rcases run limit inner (depth + 1) r with ⟨⟨res, r'⟩, h⟩
        rfl
    · rfl

theorem run_power :
    (run limit .power depth ls).1 =
      andThen (run limit .atom depth ls).1 fun base rest =>
        match operatorAhead (· == .power) rest with
        | some (_, r) => mapTree (.binary .power base) (run limit (.signed .atom) depth r.1).1
        | none => (.ok base, rest) := by
  rw [run.eq_def]
  dsimp only
  rcases run limit .atom depth ls with ⟨⟨f | base, rest⟩, h⟩
  · rfl
  · dsimp only [andThen]
    rcases operatorAhead (· == .power) rest with _ | ⟨o, r, hr⟩ <;> rfl

theorem run_atom :
    (run limit .atom depth ls).1 =
      match ls with
      | l :: r =>
        match l.token with
        | .number x => (.ok (.number x), r)
        | .string s => (.ok (.string s), r)
        | .boolean b => (.ok (.boolean b), r)
        | .symbol name => (.ok (.symbol name), r)
        | .openParen => closeParen (run limit .expression depth r).1
        | .endOfText => (.error (malformed "unexpected end" (l :: r)), l :: r)
        | .invalid m => (.error (malformed m (l :: r)), l :: r)
        | .closeParen | .op _ => (.error (malformed "expect an operand" (l :: r)), l :: r)
      | [] => (.error (malformed "unexpected end" []), []) := by
  rw [run.eq_def]
  dsimp only
  rcases ls with _ | ⟨l, r⟩
  · rfl
  · dsimp only
    rcases l with ⟨tk, start, stop, source, rest⟩
    cases tk <;> try rfl
    dsimp only
    rcases run limit .expression depth r with ⟨⟨f | e, _ | ⟨⟨tk', start', stop', source', rest'⟩, r'⟩⟩, h⟩
      <;> try rfl
    cases tk' <;> rfl

end Equations

end ExprLang.Parse
