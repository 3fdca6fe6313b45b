import ExprLang.Proofs.Rounding
import ExprLang.Proofs.WholeParts
import ExprLang.Number.Text

/-!
# The shortest digits lie in the rounding interval

`Magnitude.shortest` searches the decimal grids `10 ^ (k - 1)`, `10 ^ (k - 2)`, … for a point
of the rounding interval of `x` (`Magnitude.pick?`), falls back on the exact expansion of `x`,
and drops trailing zeros. Whatever it returns lies in the rounding interval
(`Magnitude.rounds_shortest`):

* a point the search admits is in the interval (`Magnitude.rounds_of_admits`): the grid puts
  the point and the ends of the interval on one integer scale, which is the rational scale
  times one positive factor (`Magnitude.grid_scaled`), and admits the ends exactly when the
  mantissa is even;
* the digit `pick?` returns is a point it admitted (`Magnitude.admits_of_pick?`);
* the exact expansion is `x` itself (`Magnitude.exact_value`), which lies in its own interval
  (`Magnitude.rounds_value`);
* dropping trailing zeros keeps the value (`Decimal.value_trim`).

That the digits are the fewest and the nearest is the search's own business; reading back only
needs the interval.
-/

namespace ExprLang.Number

/-- The value of a decimal, `digits · 10 ^ exponent`. -/
def Decimal.value (d : Decimal) : ℚ := d.digits * 10 ^ d.exponent

/-- Dropping trailing zeros keeps the value. -/
theorem Decimal.value_trim (d : Decimal) : d.trim.value = d.value := by
  induction d using Decimal.trim.induct with
  | case1 d h ih =>
    rw [Decimal.trim, dif_pos h, ih]
    obtain ⟨k, hk⟩ := Nat.dvd_of_mod_eq_zero h.2
    simp only [Decimal.value, hk, Nat.mul_div_cancel_left k (by decide : 0 < 10)]
    rw [zpow_add_one₀ (by norm_num)]
    push_cast
    ring
  | case2 d h => rw [Decimal.trim, dif_neg h]

namespace Magnitude

theorem exact_value (x : Magnitude) : x.exact.value = x.value := by
  unfold exact Decimal.value value
  simp only [Nat.pow_eq]
  split
  · rename_i hq
    rw [zpow_zero, mul_one, ← Int.toNat_of_nonneg hq, zpow_natCast]
    push_cast
    rfl
  · -- `2 ^ q` is `5 ^ (-q) · 10 ^ q` for a negative `q`
    rename_i hq
    obtain ⟨n, hn⟩ : ∃ n : ℕ, x.exponent = -n := ⟨(-x.exponent).toNat, by omega⟩
    rw [hn, neg_neg, Int.toNat_natCast, zpow_neg, zpow_neg, zpow_natCast, zpow_natCast]
    push_cast
    rw [show (10 : ℚ) ^ n = 2 ^ n * 5 ^ n by rw [← mul_pow]; norm_num]
    field_simp

theorem zpow_toNat (b : ℚ) (hb : b ≠ 0) (e : ℤ) : b ^ e.toNat = b ^ e * b ^ (-e).toNat := by
  rw [← zpow_natCast, ← zpow_natCast, ← zpow_add₀ hb]
  congr 1
  omega

/-- On the common scale of `x.grid e`, the grid step is `10 ^ e` and the interval is the
rounding interval of `x`, all times one positive factor. -/
theorem grid_scaled (x : Magnitude) (e : ℤ) (h0 : 0 < x.mantissa) :
    ∃ S : ℚ, 0 < S ∧ ((x.grid e).unit : ℚ) = 10 ^ e * S ∧
      ((x.grid e).low : ℚ) = (x.mantissa - x.halfGapBelow) * 2 ^ x.exponent * S ∧
      ((x.grid e).high : ℚ) = (x.mantissa + 1 / 2) * 2 ^ x.exponent * S := by
  have h2 : (2 : ℚ) ^ x.exponent = 2 ^ (x.exponent - 2) * 4 := by
    rw [zpow_sub₀ two_ne_zero]
    norm_num
  have hlow : (((4 * x.mantissa - if x.narrowBelow then 1 else 2 : ℕ)) : ℚ) =
      4 * (x.mantissa - x.halfGapBelow) := by
    unfold halfGapBelow
    cases x.narrowBelow
    · rw [if_neg Bool.false_ne_true, if_neg Bool.false_ne_true, Nat.cast_sub (by omega)]
      push_cast
      ring
    · rw [if_pos rfl, if_pos rfl, Nat.cast_sub (by omega)]
      push_cast
      ring
  refine ⟨2 ^ (-(x.exponent - 2)).toNat * 10 ^ (-e).toNat, by positivity, ?_, ?_, ?_⟩
  · simp only [grid, Nat.pow_eq]
    push_cast
    rw [zpow_toNat 10 (by norm_num) e]
    ring
  · simp only [grid, Nat.pow_eq]
    push_cast
    rw [hlow, zpow_toNat 2 two_ne_zero, h2]
    ring
  · simp only [grid, Nat.pow_eq]
    push_cast
    rw [zpow_toNat 2 two_ne_zero, h2]
    ring

theorem halfGapBelow_pos (x : Magnitude) : 0 < x.halfGapBelow := by
  unfold halfGapBelow
  split <;> norm_num

/-- A magnitude lies in its own rounding interval, away from its ends. -/
theorem rounds_value (x : Magnitude) : x.Rounds x.value := by
  have hg := halfGapBelow_pos x
  have hp := two_zpow_pos x.exponent
  unfold value
  refine ⟨?_, ?_, ?_⟩
  · exact mul_le_mul_of_nonneg_right (by linarith) hp.le
  · exact mul_le_mul_of_nonneg_right (by linarith) hp.le
  · rintro (h | h) <;> nlinarith

/-- A grid point that the grid search admits lies in the rounding interval. -/
theorem rounds_of_admits {x : Magnitude} (h0 : 0 < x.mantissa) {e : ℤ} {c : ℕ}
    (h : (x.grid e).admits x.closed (c * (x.grid e).unit) = true) : x.Rounds (c * 10 ^ e) := by
  obtain ⟨S, hS, hu, hl, hh⟩ := x.grid_scaled e h0
  have hp : ((c * (x.grid e).unit : ℕ) : ℚ) = c * 10 ^ e * S := by
    push_cast
    rw [hu]
    ring
  -- the comparisons on the common scale are the comparisons of the values
  have hle : ∀ {a b : ℕ} {a' b' : ℚ}, (a : ℚ) = a' * S → (b : ℚ) = b' * S → (a ≤ b ↔ a' ≤ b') :=
    fun ha hb => by rw [← Nat.cast_le (α := ℚ), ha, hb, mul_le_mul_iff_of_pos_right hS]
  have hlt : ∀ {a b : ℕ} {a' b' : ℚ}, (a : ℚ) = a' * S → (b : ℚ) = b' * S → (a < b ↔ a' < b') :=
    fun ha hb => by rw [← Nat.cast_lt (α := ℚ), ha, hb, mul_lt_mul_iff_of_pos_right hS]
  unfold Grid.admits at h
  cases hc : x.closed
  · -- an odd mantissa: strictly inside
    rw [hc, if_neg Bool.false_ne_true, decide_eq_true_iff, hlt hl hp, hlt hp hh] at h
    refine ⟨h.1.le, h.2.le, ?_⟩
    rintro (ht | ht)
    · exact absurd ht h.1.ne'
    · exact absurd ht h.2.ne
  · -- an even mantissa: the ends belong to the interval
    rw [hc, if_pos rfl, decide_eq_true_iff, hle hl hp, hle hp hh] at h
    refine ⟨h.1, h.2, fun _ => ?_⟩
    simpa [closed] using hc

/-- The digit that the grid search picks on a grid is a grid point it admits. -/
theorem admits_of_pick? {x : Magnitude} {e : ℤ} {c : ℕ} (h : x.pick? e = some c) :
    (x.grid e).admits x.closed (c * (x.grid e).unit) = true := by
  unfold pick? at h
  dsimp only at h
  split at h
  · rename_i hb ha
    split at h
    · cases h
      exact hb
    · cases h
      exact ha
  · rename_i hb _
    cases h
    exact hb
  · rename_i _ ha
    cases h
    exact ha
  · cases h

/-- The shortest digits of a nonzero magnitude lie in its rounding interval. -/
theorem rounds_shortest {x : Magnitude} (h0 : 0 < x.mantissa) : x.Rounds x.shortest.value := by
  unfold shortest
  rw [if_neg h0.ne']
  dsimp only
  rw [Decimal.value_trim]
  generalize hhit : List.findSome? _ (List.range 17) = hit
  cases hit with
  | none =>
    rw [Option.getD_none, exact_value]
    exact rounds_value x
  | some d =>
    obtain ⟨i, -, hi⟩ := List.exists_of_findSome?_eq_some hhit
    obtain ⟨c, hc, rfl⟩ := Option.map_eq_some_iff.1 hi
    exact rounds_of_admits h0 (admits_of_pick? hc)

end Magnitude

end ExprLang.Number
