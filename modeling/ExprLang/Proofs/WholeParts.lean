import Mathlib
import ExprLang.Tree.Eval

/-!
# Whole parts of numbers, against their values

The remainder and string repetition take whole numbers from binary64 values
(`Parts.toInt64`, `Parts.toCount`), computed from the bit pattern by shifting the mantissa.
Here they are compared with the value the bits stand for, `m · 2 ^ q` as a rational number
(`Magnitude.value`, `Parts.toRat?`):

* dropping the fraction of a magnitude is taking the floor of its value (`truncate_eq_floor`);
* `toInt64` is the saturating truncation toward zero (`SaturatingTrunc`), with not a number as
  `0`; it is `0` exactly for not a number and the values strictly between `-1` and `1`;
* `toCount` is `⌊x⌋` for `x ≥ 1`, at most `2 ^ 64 - 1`, and `0` below one (`CountOf`).

Main statement (`modulo_exact_remainder`): `a % b` refuses exactly the divisors whose whole
part is `0`, and otherwise gives the exact remainder of the truncated division of the whole
parts. That remainder is smaller than the divisor, is `0` or has the dividend's sign, and
never leaves the 64-bit range, so the least 64-bit integer modulo `-1` is `0`.
-/

namespace ExprLang.Number

/-- The value of a magnitude, `mantissa · 2 ^ exponent`. -/
def Magnitude.value (m : Magnitude) : ℚ := m.mantissa * 2 ^ m.exponent

/-- The value of a finite binary64 number; none for not a number and the infinities. -/
def Parts.toRat? : Parts → Option ℚ
  | .finite negative m => some (if negative then -m.value else m.value)
  | _ => none

/-- Rounding toward zero: the floor of a number that is not negative, the ceiling of a negative
one. -/
def towardZero (x : ℚ) : ℤ := if 0 ≤ x then ⌊x⌋ else ⌈x⌉

theorem int64Min_eq : int64Min = -9223372036854775808 := by decide

theorem int64Max_eq : int64Max = 9223372036854775807 := by decide

theorem countMax_eq : countMax = 18446744073709551615 := by decide

/-! ## Magnitudes -/

namespace Magnitude

theorem value_nonneg (m : Magnitude) : 0 ≤ m.value := by
  unfold value
  positivity

/-- Dropping the fraction of a magnitude is taking the floor of its value. -/
theorem truncate_eq_floor (m : Magnitude) : m.truncate = ⌊m.value⌋₊ := by
  unfold truncate value
  split
  · rename_i he
    -- a nonnegative exponent scales the mantissa by a whole power of two
    have h2 : (2 : ℚ) ^ m.exponent = (2 : ℚ) ^ m.exponent.toNat := by
      rw [← zpow_natCast, Int.toNat_of_nonneg he]
    have hcast : (m.mantissa : ℚ) * 2 ^ m.exponent.toNat =
        ((m.mantissa * 2 ^ m.exponent.toNat : ℕ) : ℚ) := by
      push_cast
      rfl
    rw [h2, Nat.pow_eq, hcast, Nat.floor_natCast]
  · rename_i he
    -- a negative exponent divides the mantissa by a whole power of two
    have hk : ((-m.exponent).toNat : ℤ) = -m.exponent := Int.toNat_of_nonneg (by omega)
    have h2 : (2 : ℚ) ^ m.exponent = (((2 ^ (-m.exponent).toNat : ℕ) : ℚ))⁻¹ := by
      rw [Nat.cast_pow, Nat.cast_ofNat, ← zpow_natCast, hk, ← zpow_neg, neg_neg]
    rw [h2, ← div_eq_mul_inv, Nat.floor_div_eq_div, Nat.pow_eq]

end Magnitude

/-! ## Rounding toward zero -/

theorem towardZero_of_nonneg {y : ℚ} (hy : 0 ≤ y) : towardZero y = ⌊y⌋₊ := by
  rw [towardZero, if_pos hy, Int.natCast_floor_eq_floor hy]

theorem towardZero_neg_of_nonneg {y : ℚ} (hy : 0 ≤ y) : towardZero (-y) = -(⌊y⌋₊ : ℤ) := by
  unfold towardZero
  split
  · rename_i hny
    -- only zero is both
    have hy0 : y = 0 := by linarith
    simp [hy0]
  · rw [Int.ceil_neg, Int.natCast_floor_eq_floor hy]

/-! ## The signed 64-bit whole part -/

/-- `i` is the saturating truncation of a binary64 value to a signed 64-bit integer: `0` for
not a number, the ends of the range for the infinities, and a finite value rounded toward zero
and then clamped to the range. -/
def SaturatingTrunc (p : Parts) (i : ℤ) : Prop :=
  (p = .nan → i = 0) ∧
    (∀ negative, p = .infinite negative → i = if negative then int64Min else int64Max) ∧
    ∀ x, p.toRat? = some x → i = max int64Min (min int64Max (towardZero x))

namespace Parts

theorem toRat?_finite (negative : Bool) (m : Magnitude) :
    (finite negative m).toRat? = some (if negative then -m.value else m.value) := rfl

theorem int64Min_le_toInt64 (p : Parts) : int64Min ≤ p.toInt64 := by
  cases p with
  | nan => simp [toInt64, int64Min_eq]
  | infinite negative => cases negative <;> simp [toInt64, int64Min_eq, int64Max_eq]
  | finite negative m => cases negative <;> simp [toInt64, int64Min_eq, int64Max_eq]

theorem toInt64_le_int64Max (p : Parts) : p.toInt64 ≤ int64Max := by
  cases p with
  | nan => simp [toInt64, int64Max_eq]
  | infinite negative => cases negative <;> simp [toInt64, int64Min_eq, int64Max_eq]
  | finite negative m => cases negative <;> simp [toInt64, int64Min_eq, int64Max_eq]; omega

/-- `toInt64` rounds toward zero and saturates. -/
theorem toInt64_saturatingTrunc (p : Parts) : SaturatingTrunc p p.toInt64 := by
  refine ⟨fun h => by subst h; rfl, fun negative h => by subst h; rfl, fun x hx => ?_⟩
  cases p with
  | nan => cases hx
  | infinite => cases hx
  | finite negative m =>
    rw [toRat?_finite, Option.some.injEq] at hx
    subst hx
    have hv := m.value_nonneg
    cases negative
    · rw [if_neg Bool.false_ne_true, towardZero_of_nonneg hv, ← m.truncate_eq_floor]
      simp only [toInt64, Bool.false_eq_true, if_false]
      rw [int64Min_eq, int64Max_eq]
      omega
    · rw [if_pos rfl, towardZero_neg_of_nonneg hv, ← m.truncate_eq_floor]
      simp only [toInt64, if_true]
      rw [int64Min_eq, int64Max_eq]
      omega

/-- A finite value has whole part `0` exactly when its fraction is all there is. -/
theorem toInt64_finite_eq_zero_iff (negative : Bool) (m : Magnitude) :
    (finite negative m).toInt64 = 0 ↔ m.truncate = 0 := by
  cases negative <;> simp only [toInt64, int64Min_eq, int64Max_eq] <;> omega

/-- The whole part is `0` exactly for not a number and the values strictly between `-1` and
`1`. -/
theorem toInt64_eq_zero_iff (p : Parts) :
    p.toInt64 = 0 ↔ p = .nan ∨ ∃ x, p.toRat? = some x ∧ -1 < x ∧ x < 1 := by
  cases p with
  | nan => simp [toInt64]
  | infinite negative =>
    cases negative <;> simp [toInt64, toRat?, int64Min_eq, int64Max_eq]
  | finite negative m =>
    rw [toInt64_finite_eq_zero_iff, m.truncate_eq_floor, Nat.floor_eq_zero, toRat?_finite]
    have hv := m.value_nonneg
    cases negative
    · simp only [Bool.false_eq_true, if_false, reduceCtorEq, Option.some.injEq, exists_eq_left',
        false_or]
      constructor
      · intro h
        exact ⟨by linarith, h⟩
      · exact fun h => h.2
    · simp only [if_true, reduceCtorEq, Option.some.injEq, exists_eq_left', false_or]
      constructor
      · intro h
        exact ⟨by linarith, by linarith⟩
      · intro h
        linarith [h.1]

/-! ## The count -/

/-- `c` is the count a binary64 value stands for: `0` for not a number and every value below
one, `-∞` included; `⌊x⌋` for a finite `x ≥ 1`, at most `2 ^ 64 - 1`; and `2 ^ 64 - 1` for
`+∞`. -/
def CountOf (p : Parts) (c : ℕ) : Prop :=
  ((p = .nan ∨ p = .infinite true ∨ ∃ x, p.toRat? = some x ∧ x < 1) → c = 0) ∧
    (p = .infinite false → c = countMax) ∧
    ∀ x, p.toRat? = some x → 1 ≤ x → c = min ⌊x⌋₊ countMax

/-- `toCount` counts as `CountOf` says. -/
theorem toCount_countOf (p : Parts) : CountOf p p.toCount := by
  refine ⟨fun h => ?_, fun h => by subst h; rfl, fun x hx h1 => ?_⟩
  · rcases h with rfl | rfl | ⟨x, hx, h1⟩
    · rfl
    · rfl
    · cases p with
      | nan => rfl
      | infinite => cases hx
      | finite negative m =>
        rw [toRat?_finite, Option.some.injEq] at hx
        cases negative
        · -- a value below one has no whole part
          have h0 : m.truncate = 0 := by
            rw [m.truncate_eq_floor, Nat.floor_eq_zero]
            simpa [← hx] using h1
          simp [toCount, h0]
        · rfl
  · cases p with
    | nan => cases hx
    | infinite => cases hx
    | finite negative m =>
      rw [toRat?_finite, Option.some.injEq] at hx
      have hv := m.value_nonneg
      cases negative
      · simp only [Bool.false_eq_true, if_false] at hx
        subst hx
        simp [toCount, m.truncate_eq_floor]
      · -- a negative value is below one
        simp only [if_true] at hx
        linarith

end Parts

end Number

namespace Tree

open Number

theorem applyBinary_modulo (alloc : Allocator) (a b : Float) :
    applyBinary alloc .modulo (.number a) (.number b) = Value.number <$> remainder a b := rfl

/-- The remainder of truncated division never exceeds the 64-bit range: it is smaller than the
divisor, and `0` or of the dividend's sign. -/
theorem tmod_bounds {a b : ℤ} (hb : b ≠ 0) (hlo : int64Min ≤ b) (hhi : b ≤ int64Max) :
    |a.tmod b| < |b| ∧ (a.tmod b = 0 ∨ (a.tmod b).sign = a.sign) ∧
      int64Min ≤ a.tmod b ∧ a.tmod b ≤ int64Max := by
  have hlt : (a.tmod b).natAbs < b.natAbs := by
    rw [Int.natAbs_tmod]
    exact Nat.mod_lt _ (Int.natAbs_pos.2 hb)
  refine ⟨?_, ?_, ?_⟩
  · rw [Int.abs_eq_natAbs, Int.abs_eq_natAbs]
    exact_mod_cast hlt
  · rw [Int.sign_tmod]
    split
    · exact .inl (Int.tmod_eq_zero_of_dvd ‹_›)
    · exact .inr rfl
  · rw [int64Min_eq, int64Max_eq] at *
    omega

/-- Modulo never overflows and is the exact truncated remainder. The operands' whole parts
`aᵢ` and `bᵢ` are their saturating truncations to signed 64-bit integers, not a number being
`0`. `a % b` refuses exactly when `bᵢ = 0`, that is when `b` is not a number or lies strictly
between `-1` and `1`; otherwise it gives the number of `r = aᵢ - bᵢ · trunc (aᵢ / bᵢ)`, which is
smaller than `bᵢ` in magnitude, `0` or of `aᵢ`'s sign, and within the 64-bit range. The least
64-bit integer modulo `-1` is `0`. -/
theorem modulo_exact_remainder (alloc : Allocator) (a b : Float) :
    SaturatingTrunc (Parts.ofFloat a) (Parts.ofFloat a).toInt64 ∧
    SaturatingTrunc (Parts.ofFloat b) (Parts.ofFloat b).toInt64 ∧
    let ai := (Parts.ofFloat a).toInt64
    let bi := (Parts.ofFloat b).toInt64
    let r := ai - bi * ai.tdiv bi
    (applyBinary alloc .modulo (.number a) (.number b) = .error .moduloByZero ↔ bi = 0) ∧
    (bi = 0 ↔ Parts.ofFloat b = .nan ∨
      ∃ x, (Parts.ofFloat b).toRat? = some x ∧ -1 < x ∧ x < 1) ∧
    (bi ≠ 0 → applyBinary alloc .modulo (.number a) (.number b) = .ok (.number (Float.ofInt r)) ∧
      |r| < |bi| ∧ (r = 0 ∨ r.sign = ai.sign) ∧ int64Min ≤ r ∧ r ≤ int64Max) ∧
    (ai = int64Min → bi = -1 →
      applyBinary alloc .modulo (.number a) (.number b) = .ok (.number 0)) := by
  refine ⟨Parts.toInt64_saturatingTrunc _, Parts.toInt64_saturatingTrunc _, ?_⟩
  intro ai bi r
  have hr : r = ai.tmod bi := (Int.tmod_def ai bi).symm
  have hrem : remainder a b = if bi = 0 then .error .moduloByZero else .ok (Float.ofInt r) := by
    rw [hr]
    rfl
  refine ⟨?_, Parts.toInt64_eq_zero_iff _, fun hb => ?_, fun ha hb => ?_⟩
  · rw [applyBinary_modulo, hrem]
    split <;> simp_all [Functor.map, Except.map]
  · refine ⟨by simp [applyBinary_modulo, hrem, hb, Functor.map, Except.map], ?_⟩
    rw [hr]
    exact tmod_bounds hb (Parts.int64Min_le_toInt64 _) (Parts.toInt64_le_int64Max _)
  · -- the least integer is a multiple of `-1`, so nothing remains
    have hr0 : r = 0 := by
      rw [hr, ha, hb, Int.tmod_neg, Int.tmod_one]
    rw [applyBinary_modulo, hrem, if_neg (by rw [hb]; decide), hr0]
    rfl

end Tree

end ExprLang
