import ExprLang.Tree.Eval

/-!
# Kinds of trees

Evaluation is typed by the kinds of values. `HasType Γ t k` says that under the kinds `Γ` of the
symbols, the tree `t` has kind `k`, by the table of operators in `ExprLang.Tree.Eval`, written
out as the relations `UnaryTyping` and `BinaryTyping`:

* `+` and `-` take a number and `!` a boolean, in front of an operand;
* `+` gives a number on two numbers and a string when a string stands on either side of a
  number or string; `*` gives a number on two numbers and a string on a string and a number,
  either way; `-`, `/`, `%` and `^` take two numbers;
* `&&` and `||` take two booleans; `==` and `!=` take two values of one kind; `<`, `<=`,
  `>` and `>=` take two numbers or two strings, and all of these give a boolean.

Evaluation under bindings `env` then agrees with the kinds of what `env` binds, `kinds env`
(`eval_sound_and_progress`):

* a value is the value of a well-typed tree, of that kind;
* an unbound symbol or an operator refused its operands (`Fault.IsTypeFault`) comes only from
  an ill-typed tree;
* a well-typed tree evaluates to a value of its kind, or meets a fault that depends on values
  alone (`Fault.IsValueFault`): a zero divisor, or a repetition too large to hold.

The kind an operator gives is computed by `Operator.unaryKind?` and `Operator.binaryKind?`,
equal to the relations (`unaryTyping_iff`, `binaryTyping_iff`). What applying an operator does
is said once for each operator kind: with no kind, the operator is refused
(`applyBinary_of_binaryKind_none`); with a kind, the outcome `Fits` it
(`applyBinary_of_binaryKind_some`). The three parts of the main theorem are inductions on the
tree or on the typing that cite these two facts.
-/

namespace ExprLang

/-! ## The typing table -/

/-- The kind a prefix operator gives to an operand of a kind. -/
inductive UnaryTyping : Operator → Kind → Kind → Prop
  | plus : UnaryTyping .plus .number .number
  | minus : UnaryTyping .minus .number .number
  | not : UnaryTyping .logicalNot .boolean .boolean

/-- The kind a binary operator gives to operands of two kinds. -/
inductive BinaryTyping : Operator → Kind → Kind → Kind → Prop
  | add : BinaryTyping .plus .number .number .number
  | appendNumber : BinaryTyping .plus .string .number .string
  | prependNumber : BinaryTyping .plus .number .string .string
  | append : BinaryTyping .plus .string .string .string
  | subtract : BinaryTyping .minus .number .number .number
  | multiply : BinaryTyping .times .number .number .number
  | repeatRight : BinaryTyping .times .string .number .string
  | repeatLeft : BinaryTyping .times .number .string .string
  | divide : BinaryTyping .divide .number .number .number
  | remainder : BinaryTyping .modulo .number .number .number
  | power : BinaryTyping .power .number .number .number
  | conj : BinaryTyping .logicalAnd .boolean .boolean .boolean
  | disj : BinaryTyping .logicalOr .boolean .boolean .boolean
  | eq {k : Kind} : BinaryTyping .eq k k .boolean
  | ne {k : Kind} : BinaryTyping .ne k k .boolean
  | gt {k : Kind} : k ≠ .boolean → BinaryTyping .gt k k .boolean
  | ge {k : Kind} : k ≠ .boolean → BinaryTyping .ge k k .boolean
  | lt {k : Kind} : k ≠ .boolean → BinaryTyping .lt k k .boolean
  | le {k : Kind} : k ≠ .boolean → BinaryTyping .le k k .boolean

/-- `HasType Γ t k`: under the kinds `Γ` of the symbols, the tree `t` is well typed with kind
`k`. -/
inductive HasType (Γ : String → Option Kind) : Tree → Kind → Prop
  | number (x : Float) : HasType Γ (.number x) .number
  | string (s : String) : HasType Γ (.string s) .string
  | boolean (b : Bool) : HasType Γ (.boolean b) .boolean
  | symbol {name : String} {k : Kind} : Γ name = some k → HasType Γ (.symbol name) k
  | unary {o : Operator} {a : Tree} {k k' : Kind} : HasType Γ a k → UnaryTyping o k k' →
      HasType Γ (.unary o a) k'
  | binary {o : Operator} {l r : Tree} {k₁ k₂ k : Kind} : HasType Γ l k₁ → HasType Γ r k₂ →
      BinaryTyping o k₁ k₂ k → HasType Γ (.binary o l r) k

/-- The kinds of the values that `env` binds. -/
def kinds (env : String → Option Value) (name : String) : Option Kind :=
  (env name).map Value.kind

namespace Operator

/-- The kind a prefix operator gives to an operand of kind `k`, if it takes one. -/
def unaryKind? : Operator → Kind → Option Kind
  | .plus, .number | .minus, .number => some .number
  | .logicalNot, .boolean => some .boolean
  | _, _ => none

/-- The kind a binary operator gives to operands of kinds `k₁` and `k₂`, if it takes them. -/
def binaryKind? : Operator → Kind → Kind → Option Kind
  | .plus, .number, .number => some .number
  | .plus, .string, .number | .plus, .number, .string | .plus, .string, .string => some .string
  | .minus, .number, .number | .divide, .number, .number | .modulo, .number, .number
  | .power, .number, .number | .times, .number, .number => some .number
  | .times, .string, .number | .times, .number, .string => some .string
  | .logicalAnd, .boolean, .boolean | .logicalOr, .boolean, .boolean => some .boolean
  | .eq, k₁, k₂ | .ne, k₁, k₂ => if k₁ = k₂ then some .boolean else none
  | .gt, .number, .number | .ge, .number, .number | .lt, .number, .number
  | .le, .number, .number => some .boolean
  | .gt, .string, .string | .ge, .string, .string | .lt, .string, .string
  | .le, .string, .string => some .boolean
  | _, _, _ => none

end Operator

open Operator

theorem unaryTyping_iff {o : Operator} {k k' : Kind} :
    UnaryTyping o k k' ↔ unaryKind? o k = some k' := by
  constructor
  · rintro (_ | _ | _) <;> rfl
  · intro h
    cases o <;> cases k <;> simp only [unaryKind?, Option.some.injEq, reduceCtorEq] at h <;>
      subst h <;> constructor

theorem binaryTyping_iff {o : Operator} {k₁ k₂ k : Kind} :
    BinaryTyping o k₁ k₂ k ↔ binaryKind? o k₁ k₂ = some k := by
  constructor
  · intro h
    cases h with
    | gt hk | ge hk | lt hk | le hk => cases k₁ <;> simp_all [binaryKind?]
    | _ => simp [binaryKind?]
  · intro h
    -- each operator's constructor is the only one it unifies with; the order ones leave the
    -- side goal that the operands are not booleans
    cases o <;> cases k₁ <;> cases k₂ <;> simp [binaryKind?] at h <;> subst h <;>
      constructor <;> decide

theorem UnaryTyping.unique {o : Operator} {k k₁ k₂ : Kind} (h₁ : UnaryTyping o k k₁)
    (h₂ : UnaryTyping o k k₂) : k₁ = k₂ :=
  Option.some.inj ((unaryTyping_iff.1 h₁).symm.trans (unaryTyping_iff.1 h₂))

theorem BinaryTyping.unique {o : Operator} {k₁ k₂ k k' : Kind} (h : BinaryTyping o k₁ k₂ k)
    (h' : BinaryTyping o k₁ k₂ k') : k = k' :=
  Option.some.inj ((binaryTyping_iff.1 h).symm.trans (binaryTyping_iff.1 h'))

/-- A tree has at most one kind. -/
theorem HasType.unique {Γ : String → Option Kind} {t : Tree} {k k' : Kind} (h : HasType Γ t k)
    (h' : HasType Γ t k') : k = k' := by
  induction h generalizing k' with
  | number | string | boolean => cases h'; rfl
  | symbol hk =>
    cases h' with
    | symbol hk' => exact Option.some.inj (hk.symm.trans hk')
  | unary _ hu ih =>
    cases h' with
    | unary ha' hu' => exact hu.unique (ih ha' ▸ hu')
  | binary _ _ hb ihl ihr =>
    cases h' with
    | binary hl' hr' hb' => exact hb.unique (ihl hl' ▸ ihr hr' ▸ hb')

/-! ## Faults of kinds and faults of values -/

namespace Fault

/-- The faults that only an ill-typed tree meets: an unbound symbol, or an operator refused the
kinds of its operands. -/
def IsTypeFault : Fault → Prop
  | unbound _ | unaryType _ _ | binaryType _ _ _ => True
  | _ => False

/-- The faults that a well-typed tree can still meet, which depend on values: a zero divisor,
or a repetition too large to hold. -/
def IsValueFault : Fault → Prop
  | divideByZero | moduloByZero | repeatRefused => True
  | _ => False

theorem not_isValueFault {f : Fault} (h : f.IsTypeFault) : ¬ f.IsValueFault := by
  cases f <;> simp_all [IsTypeFault, IsValueFault]

end Fault

/-- An outcome fits a kind when it is a value of that kind, or a fault of values. -/
def Fits (k : Kind) : Except Fault Value → Prop
  | .ok v => v.kind = k
  | .error f => f.IsValueFault

@[simp] theorem fits_ok {k : Kind} {v : Value} : Fits k (.ok v) ↔ v.kind = k := Iff.rfl

@[simp] theorem fits_error {k : Kind} {f : Fault} : Fits k (.error f) ↔ f.IsValueFault :=
  Iff.rfl

@[simp] theorem fits_repeat (alloc : Allocator) (s : String) (n : Float) :
    Fits .string (Value.string <$> repeatText alloc s n) := by
  unfold repeatText
  dsimp only
  split
  · rfl
  · split
    · exact trivial
    · split
      · rfl
      · exact trivial

@[simp] theorem fits_remainder (a b : Float) :
    Fits .number (Value.number <$> remainder a b) := by
  unfold remainder
  dsimp only
  split
  · exact trivial
  · rfl

@[simp] theorem fits_divide (a b : Float) :
    Fits .number (if (Number.Parts.ofFloat b).isZero then .error .divideByZero
      else .ok (.number (a / b))) := by
  split
  · exact trivial
  · rfl

/-- A result after a bind is the continuation's result on the first one. -/
theorem bind_eq_ok {ε α β : Type} {x : Except ε α} {g : α → Except ε β} {b : β}
    (h : x >>= g = .ok b) : ∃ a, x = .ok a ∧ g a = .ok b := by
  cases x with
  | error e => cases h
  | ok a => exact ⟨a, rfl, h⟩

/-! ## Applying an operator -/

namespace Tree

variable {alloc : Allocator}

/-- A prefix operator refuses an operand of a kind it does not take. -/
theorem applyUnary_of_unaryKind_none {o : Operator} {v : Value} (h : unaryKind? o v.kind = none) :
    applyUnary o v = .error (.unaryType o v.kind) := by
  cases o <;> cases v <;> simp_all [unaryKind?, applyUnary, Value.kind]

/-- A prefix operator applied to an operand of a kind it takes gives a value of its kind. -/
theorem applyUnary_of_unaryKind_some {o : Operator} {v : Value} {k : Kind}
    (h : unaryKind? o v.kind = some k) : Fits k (applyUnary o v) := by
  cases o <;> cases v <;> simp_all [unaryKind?, applyUnary, Value.kind]

/-- A binary operator refuses operands of kinds it does not take. -/
theorem applyBinary_of_binaryKind_none {o : Operator} {a b : Value}
    (h : binaryKind? o a.kind b.kind = none) :
    applyBinary alloc o a b = .error (.binaryType o a.kind b.kind) := by
  cases o <;> cases a <;> cases b <;> simp_all [binaryKind?, applyBinary, Value.kind]

/-- A binary operator applied to operands of kinds it takes gives a value of its kind, or a
fault of values. -/
theorem applyBinary_of_binaryKind_some {o : Operator} {a b : Value} {k : Kind}
    (h : binaryKind? o a.kind b.kind = some k) : Fits k (applyBinary alloc o a b) := by
  cases o <;> cases a <;> cases b <;> simp only [binaryKind?, Value.kind, reduceCtorEq,
    Option.some.injEq, if_true, if_false] at h <;> subst h <;> simp [applyBinary, Value.kind]

/-- A prefix operator gives a value only to an operand of a kind it takes, and the value has
the kind the operator gives. -/
theorem unaryKind_of_applyUnary_ok {o : Operator} {a v : Value} (h : applyUnary o a = .ok v) :
    unaryKind? o a.kind = some v.kind := by
  cases hk : unaryKind? o a.kind with
  | none => rw [applyUnary_of_unaryKind_none hk] at h; cases h
  | some k =>
    have hf := applyUnary_of_unaryKind_some hk
    rw [h, fits_ok] at hf
    rw [hf]

/-- A binary operator gives a value only to operands of kinds it takes, and the value has the
kind the operator gives. -/
theorem binaryKind_of_applyBinary_ok {o : Operator} {a b v : Value}
    (h : applyBinary alloc o a b = .ok v) : binaryKind? o a.kind b.kind = some v.kind := by
  cases hk : binaryKind? o a.kind b.kind with
  | none => rw [applyBinary_of_binaryKind_none hk] at h; cases h
  | some k =>
    have hf : Fits k (applyBinary alloc o a b) := applyBinary_of_binaryKind_some hk
    rw [h, fits_ok] at hf
    rw [hf]

/-- A fault of a first part is the fault of the whole; a value of its kind goes on. -/
theorem Fits.bind {k k' : Kind} {x : Except Fault Value} {g : Value → Except Fault Value}
    (hx : Fits k x) (hg : ∀ v, v.kind = k → Fits k' (g v)) : Fits k' (x >>= g) := by
  cases x with
  | error f => exact hx
  | ok v => exact hg v hx

/-- A value of a tree is a value of its kind: the tree is well typed under the kinds of the
bindings. -/
theorem hasType_of_eval_ok {env : String → Option Value} {t : Tree} {v : Value}
    (h : t.eval alloc env = .ok v) : HasType (kinds env) t v.kind := by
  induction t generalizing v with
  | number x => cases h; exact .number x
  | string s => cases h; exact .string s
  | boolean b => cases h; exact .boolean b
  | symbol name =>
    apply HasType.symbol
    simp only [eval] at h
    split at h
    · cases h
      simp [kinds, *]
    · cases h
  | unary o a ih =>
    obtain ⟨va, ha, hu⟩ := bind_eq_ok h
    exact .unary (ih ha) (unaryTyping_iff.2 (unaryKind_of_applyUnary_ok hu))
  | binary o l r ihl ihr =>
    obtain ⟨vl, hl, h⟩ := bind_eq_ok h
    obtain ⟨vr, hr, hb⟩ := bind_eq_ok h
    exact .binary (ihl hl) (ihr hr) (binaryTyping_iff.2 (binaryKind_of_applyBinary_ok hb))

/-- The outcome of a well-typed tree fits its kind: its value has that kind, or it meets a
fault of values. Faults pass through the operators above them (`Fits.bind`), so the induction
needs only that each operator's outcome fits when its operands' values have their kinds. -/
theorem fits_eval {env : String → Option Value} {t : Tree} {k : Kind}
    (h : HasType (kinds env) t k) : Fits k (t.eval alloc env) := by
  induction h with
  | number x => rfl
  | string s => rfl
  | boolean b => rfl
  | symbol hk =>
    simp only [kinds, Option.map_eq_some_iff] at hk
    obtain ⟨v, hv, rfl⟩ := hk
    simp [eval, hv]
  | unary _ hu ih =>
    exact Fits.bind ih fun va hva => applyUnary_of_unaryKind_some (hva ▸ unaryTyping_iff.1 hu)
  | binary _ _ hb ihl ihr =>
    exact Fits.bind ihl fun vl hvl => Fits.bind ihr fun vr hvr =>
      applyBinary_of_binaryKind_some (hvl ▸ hvr ▸ binaryTyping_iff.1 hb)

/-- Type soundness and progress of evaluation, under the kinds of the bindings: a value is the
value of a well-typed tree, of its kind; a fault of kinds comes only from an ill-typed tree; and
a well-typed tree gives a value of its kind or meets a fault of values. -/
theorem eval_sound_and_progress (alloc : Allocator) (env : String → Option Value) (t : Tree) :
    (∀ v, t.eval alloc env = .ok v → HasType (kinds env) t v.kind) ∧
    (∀ f, t.eval alloc env = .error f → f.IsTypeFault → ∀ k, ¬ HasType (kinds env) t k) ∧
    (∀ k, HasType (kinds env) t k →
      (∃ v, t.eval alloc env = .ok v ∧ v.kind = k) ∨
        ∃ f, t.eval alloc env = .error f ∧ f.IsValueFault) := by
  refine ⟨fun v h => hasType_of_eval_ok h, ?_, ?_⟩
  · intro f h hf k ht
    have hv : Fits k (t.eval alloc env) := fits_eval ht
    rw [h, fits_error] at hv
    exact Fault.not_isValueFault hf hv
  · intro k ht
    have hv : Fits k (t.eval alloc env) := fits_eval ht
    cases h : t.eval alloc env with
    | ok v => rw [h, fits_ok] at hv; exact .inl ⟨v, rfl, hv⟩
    | error f => rw [h, fits_error] at hv; exact .inr ⟨f, rfl, hv⟩

end Tree

end ExprLang
