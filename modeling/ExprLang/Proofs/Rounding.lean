import Mathlib
import ExprLang.Number.Parts

/-!
# Rounding to binary64

Reading a decimal ends in the rounding step of the binary64 model (`roundWithAccuracy`): a
mantissa `m`, an exponent `e` and an `Accuracy` that says where the exact value lies between
`m · 2 ^ e` and `(m + 1) · 2 ^ e` (`Near`). This file proves that the step rounds to the
nearest binary64 value, in the form the round trip of number text needs:

> if `r` lies in the rounding interval of a binary64 magnitude `x` (`Magnitude.Rounds`), and
> `m · 2 ^ e` is `r` cut to a whole number of units `2 ^ e`, with at least 53 bits or at the
> least exponent, then `roundWithAccuracy` gives `x` (`roundWithAccuracy_of_rounds`).

The rounding interval of `x = M · 2 ^ q` reaches half a unit below and above it, a quarter of
a unit below at a power of two whose lower neighbour is half as far away
(`Magnitude.narrowBelow`); its ends belong to it when `M` is even.

The model shifts the mantissa right to the target exponent, keeping the dropped bits in a
round bit and a sticky bit; `Near` is what those bits say, and every shift keeps it
(`near_shiftRight`). The target exponent is the exponent of `x` (`target_cases`), except just
below a power of two, where it is one less and rounding carries into a 54th bit that the
second shift of the model takes away again.

The products and quotients that reading computes are brought to this form by
`mul_of_rounds` and `div_of_rounds`; `divCore_near` says where a quotient lies.
-/

namespace ExprLang.Number

open Float.Model Float.Model.UnpackedFloat

/-! ## Where the exact value lies -/

/-- Where a rational `u` lies against a natural mantissa `m`, as an accuracy says it: at `m`,
below the half, at the half, or above it, before `m + 1`. -/
def Near (u : ℚ) (m : ℕ) : Accuracy → Prop
  | .exact => u = m
  | .inexact .lt => m < u ∧ u < m + 1 / 2
  | .inexact .eq => u = m + 1 / 2
  | .inexact .gt => m + 1 / 2 < u ∧ u < m + 1

theorem Near.bounds {u : ℚ} {m : ℕ} {acc : Accuracy} (h : Near u m acc) :
    (m : ℚ) ≤ u ∧ u < m + 1 := by
  rcases acc with _ | (_ | _ | _) <;> simp only [Near] at h
  · exact ⟨h.ge, by linarith⟩
  · exact ⟨h.1.le, by linarith [h.2]⟩
  · exact ⟨by linarith, by linarith⟩
  · exact ⟨by linarith [h.1], h.2⟩

theorem near_ofMantissaAndAccuracy {u : ℚ} {m : ℕ} {acc : Accuracy} (h : Near u m acc) :
    Near u (ExtendedMantissa.ofMantissaAndAccuracy m acc).mantissa
      (ExtendedMantissa.ofMantissaAndAccuracy m acc).accuracy := by
  rcases acc with _ | (_ | _ | _) <;> exact h

/-- Shifting one bit out of the mantissa halves the value it stands for: the bit goes to the
round bit, the round and sticky bits to the sticky bit. -/
theorem near_shiftRightOne {u : ℚ} {em : ExtendedMantissa}
    (h : Near u em.mantissa em.accuracy) :
    Near (u / 2) em.shiftRightOne.mantissa em.shiftRightOne.accuracy := by
  obtain ⟨m, rb, sb⟩ := em
  obtain ⟨k, rfl | rfl⟩ := Nat.even_or_odd' m
  · -- an even mantissa: half of `u` lies at `k` or below `k + 1/2`
    have hk : 2 * k / 2 = k := by omega
    have hk2 : (2 * k % 2 != 0) = false := by simp
    cases rb <;> cases sb <;>
      simp only [ExtendedMantissa.shiftRightOne, ExtendedMantissa.accuracy, Near, hk, hk2,
        Bool.or_false, Bool.or_true] at h ⊢ <;> push_cast at h ⊢
    · linarith
    · exact ⟨by linarith [h.1], by linarith [h.2]⟩
    · exact ⟨by linarith, by linarith⟩
    · exact ⟨by linarith [h.1], by linarith [h.2]⟩
  · -- an odd mantissa: half of `u` lies at `k + 1/2` or above it
    have hk : (2 * k + 1) / 2 = k := by omega
    have hk2 : ((2 * k + 1) % 2 != 0) = true := by simp [Nat.add_mod]
    cases rb <;> cases sb <;>
      simp only [ExtendedMantissa.shiftRightOne, ExtendedMantissa.accuracy, Near, hk, hk2,
        Bool.or_false, Bool.or_true] at h ⊢ <;> push_cast at h ⊢
    · linarith
    · exact ⟨by linarith [h.1], by linarith [h.2]⟩
    · exact ⟨by linarith, by linarith⟩
    · exact ⟨by linarith [h.1], by linarith [h.2]⟩

theorem near_shiftRight {u : ℚ} {em : ExtendedMantissa} (h : Near u em.mantissa em.accuracy)
    (n : ℕ) : Near (u / 2 ^ n) (em >>> n).mantissa (em >>> n).accuracy := by
  induction n with
  | zero => rw [pow_zero, div_one]; exact h
  | succ n ih =>
    have hstep := near_shiftRightOne ih
    rwa [div_div, ← pow_succ] at hstep

/-- Rounding to nearest, ties to even, gives every mantissa `M` within half a unit of `u`, when
`M` is even in case of a tie. -/
theorem roundToNearestEven_eq {u : ℚ} {m M : ℕ} {acc : Accuracy} (h : Near u m acc)
    (hlo : (M : ℚ) - 1 / 2 ≤ u) (hhi : u ≤ M + 1 / 2)
    (htie : u = M - 1 / 2 ∨ u = M + 1 / 2 → M % 2 = 0) :
    acc.roundToNearestEven m = M := by
  rcases acc with _ | (_ | _ | _) <;> simp only [Near] at h <;>
    simp only [Accuracy.roundToNearestEven]
  · -- `u` is the mantissa itself
    have h₁ : m < M + 1 := by exact_mod_cast (show (m : ℚ) < M + 1 by linarith)
    have h₂ : M < m + 1 := by exact_mod_cast (show (M : ℚ) < m + 1 by linarith)
    omega
  · -- `u` lies below the half: `m` is the nearest
    have h₁ : m < M + 1 := by exact_mod_cast (show (m : ℚ) < M + 1 by linarith [h.1])
    have h₂ : M < m + 1 := by exact_mod_cast (show (M : ℚ) < m + 1 by linarith [h.2])
    omega
  · -- a tie between `m` and `m + 1`: `M` is one of them, and even
    have h₁ : m ≤ M := by exact_mod_cast (show (m : ℚ) ≤ M by linarith)
    have h₂ : M ≤ m + 1 := by exact_mod_cast (show (M : ℚ) ≤ m + 1 by linarith)
    rcases Nat.eq_or_lt_of_le h₁ with rfl | hlt
    · have := htie (.inr h)
      omega
    · have hM : M = m + 1 := by omega
      subst hM
      have := htie (.inl (by push_cast; linarith))
      omega
  · -- `u` lies above the half: `m + 1` is the nearest
    have h₁ : m < M := by exact_mod_cast (show (m : ℚ) < M by linarith [h.1])
    have h₂ : M < m + 2 := by exact_mod_cast (show (M : ℚ) < m + 2 by linarith [h.2])
    omega

/-! ## Powers of two -/

theorem two_zpow_pos (k : ℤ) : (0 : ℚ) < 2 ^ k := zpow_pos (by norm_num) k

theorem two_zpow_lt_two_zpow {a b : ℤ} (h : (2 : ℚ) ^ a < 2 ^ b) : a < b :=
  (zpow_lt_zpow_iff_right₀ (by norm_num)).1 h

theorem two_zpow_add (a : ℤ) (k : ℕ) : (2 : ℚ) ^ (a + k) = 2 ^ k * 2 ^ a := by
  rw [zpow_add₀ (by norm_num), zpow_natCast, mul_comm]

/-- Bounds of `r` from a mantissa near `r / 2 ^ e`, by the bits of the mantissa. -/
theorem Near.lt_two_zpow {r : ℚ} {m : ℕ} {e : ℤ} {acc : Accuracy} (h : Near (r / 2 ^ e) m acc) :
    r < 2 ^ ((m.log2 : ℤ) + 1 + e) := by
  have hm : (m : ℚ) + 1 ≤ 2 ^ (m.log2 + 1) := by exact_mod_cast Nat.lt_log2_self
  have hu := (div_lt_iff₀ (two_zpow_pos e)).1 (h.bounds.2.trans_le hm)
  have he : (m.log2 : ℤ) + 1 + e = e + ((m.log2 + 1 : ℕ) : ℤ) := by push_cast; ring
  rwa [he, two_zpow_add]

theorem Near.two_zpow_le {r : ℚ} {m : ℕ} {e : ℤ} {acc : Accuracy} (h : Near (r / 2 ^ e) m acc)
    (hm : m ≠ 0) : 2 ^ ((m.log2 : ℤ) + e) ≤ r := by
  have hl : (2 : ℚ) ^ m.log2 ≤ m := by exact_mod_cast Nat.log2_self_le hm
  have hu := (le_div_iff₀ (two_zpow_pos e)).1 (hl.trans h.bounds.1)
  rwa [add_comm, two_zpow_add]

/-! ## Binary64 magnitudes and their rounding intervals -/

namespace Magnitude

/-- The magnitudes of binary64 values: a subnormal `M · 2 ^ (-1074)` with `M < 2 ^ 52`, or a
normal one with 53 bits and an exponent in range, narrow below exactly at a power of two above
the least exponent. -/
def Valid (x : Magnitude) : Prop :=
  (x.exponent = -1074 ∧ x.mantissa < 2 ^ 52 ∧ x.narrowBelow = false) ∨
  (2 ^ 52 ≤ x.mantissa ∧ x.mantissa < 2 ^ 53 ∧ -1074 ≤ x.exponent ∧ x.exponent ≤ 971 ∧
    (x.narrowBelow = true ↔ x.mantissa = 2 ^ 52 ∧ -1074 < x.exponent))

/-- Half the gap to the next smaller value, in units of `2 ^ exponent`. -/
def halfGapBelow (x : Magnitude) : ℚ := if x.narrowBelow then 1 / 4 else 1 / 2

/-- `r` lies in the rounding interval of `x`: no farther from `x` than half the gap to either
neighbour, and at an end only when the mantissa of `x` is even. -/
structure Rounds (x : Magnitude) (r : ℚ) : Prop where
  low : (x.mantissa - x.halfGapBelow) * 2 ^ x.exponent ≤ r
  high : r ≤ (x.mantissa + 1 / 2) * 2 ^ x.exponent
  tie : r = (x.mantissa - x.halfGapBelow) * 2 ^ x.exponent ∨
    r = (x.mantissa + 1 / 2) * 2 ^ x.exponent → x.mantissa % 2 = 0

section
variable {x : Magnitude} {r : ℚ}

theorem Valid.exponent_ge (hx : x.Valid) : -1074 ≤ x.exponent := by
  rcases hx with h | h <;> omega

theorem Valid.exponent_le (hx : x.Valid) : x.exponent ≤ 971 := by
  rcases hx with h | h <;> omega

theorem Valid.mantissa_lt (hx : x.Valid) : x.mantissa < 2 ^ 53 := by
  rcases hx with h | h <;> omega

theorem Valid.mantissa_of_narrow (hx : x.Valid) (hnb : x.narrowBelow = true) :
    x.mantissa = 2 ^ 52 ∧ -1074 < x.exponent := by
  rcases hx with h | ⟨-, -, -, -, h⟩
  · simp [hnb] at h
  · exact h.1 hnb

/-- The only binary64 magnitude with a zero mantissa is the zero at the least exponent. -/
theorem Valid.eq_zero (hx : x.Valid) (h0 : x.mantissa = 0) : x = ⟨0, -1074, false⟩ := by
  obtain ⟨M, q, nb⟩ := x
  simp only at h0
  subst h0
  rcases hx with ⟨hq, -, hnb⟩ | ⟨hM, -⟩
  · simp only at hq hnb
    subst hq hnb
    rfl
  · simp at hM

theorem halfGapBelow_le (x : Magnitude) : x.halfGapBelow ≤ 1 / 2 := by
  unfold halfGapBelow
  split <;> norm_num

/-- Everything that rounds to a binary64 magnitude lies below `2 ^ 53` units. -/
theorem Rounds.lt_two_zpow (hx : x.Valid) (hr : x.Rounds r) :
    r < 2 ^ (x.exponent + 53) := by
  have hM : (x.mantissa : ℚ) + 1 ≤ 2 ^ 53 := by exact_mod_cast hx.mantissa_lt
  calc r ≤ (x.mantissa + 1 / 2) * 2 ^ x.exponent := hr.high
    _ < 2 ^ 53 * 2 ^ x.exponent := mul_lt_mul_of_pos_right (by linarith) (two_zpow_pos _)
    _ = 2 ^ (x.exponent + 53) := (two_zpow_add _ 53).symm

/-- Above the least exponent, what rounds to a magnitude that is not narrow below lies above
`2 ^ 52` units. -/
theorem Rounds.two_zpow_lt (hx : x.Valid) (hr : x.Rounds r) (hq : -1074 < x.exponent)
    (hnb : x.narrowBelow = false) : 2 ^ (x.exponent + 52) < r := by
  have hM : 2 ^ 52 + 1 ≤ x.mantissa := by
    rcases hx with h | ⟨h, -, -, -, hiff⟩
    · omega
    · have hne : x.mantissa ≠ 2 ^ 52 := fun he => by simpa [hnb] using hiff.2 ⟨he, hq⟩
      omega
  have hM' : (2 : ℚ) ^ 52 + 1 ≤ x.mantissa := by exact_mod_cast hM
  have hgap : x.halfGapBelow = 1 / 2 := by simp [halfGapBelow, hnb]
  calc (2 : ℚ) ^ (x.exponent + 52) = 2 ^ 52 * 2 ^ x.exponent := two_zpow_add _ 52
    _ < (x.mantissa - x.halfGapBelow) * 2 ^ x.exponent :=
        mul_lt_mul_of_pos_right (by rw [hgap]; linarith) (two_zpow_pos _)
    _ ≤ r := hr.low

/-- Below a power of two that is narrow below, the interval reaches a quarter unit down, so
what rounds to it lies above `2 ^ 51` units. -/
theorem Rounds.two_zpow_lt_of_narrow (hx : x.Valid) (hr : x.Rounds r)
    (hnb : x.narrowBelow = true) : 2 ^ (x.exponent + 51) < r := by
  have hM := (hx.mantissa_of_narrow hnb).1
  calc (2 : ℚ) ^ (x.exponent + 51) = 2 ^ 51 * 2 ^ x.exponent := two_zpow_add _ 51
    _ < (x.mantissa - x.halfGapBelow) * 2 ^ x.exponent := by
        apply mul_lt_mul_of_pos_right _ (two_zpow_pos _)
        simp only [halfGapBelow, hnb, hM]
        norm_num
    _ ≤ r := hr.low

/-- What rounds to a nonzero magnitude is at least half the least subnormal value. -/
theorem Rounds.two_zpow_le (hx : x.Valid) (h0 : 0 < x.mantissa)
    (hr : x.Rounds r) : 2 ^ (-1075 : ℤ) ≤ r := by
  have hM : (1 : ℚ) ≤ x.mantissa := by exact_mod_cast h0
  have hg := halfGapBelow_le x
  have hq : (2 : ℚ) ^ (-1074 : ℤ) ≤ 2 ^ x.exponent :=
    zpow_le_zpow_right₀ (by norm_num) hx.exponent_ge
  calc (2 : ℚ) ^ (-1075 : ℤ) = 1 / 2 * 2 ^ (-1074 : ℤ) := by
        rw [show (-1075 : ℤ) = -1 + -1074 by norm_num, zpow_add₀ two_ne_zero]
        norm_num
    _ ≤ (x.mantissa - x.halfGapBelow) * 2 ^ x.exponent :=
        mul_le_mul (by linarith) hq (by positivity) (by linarith)
    _ ≤ r := hr.low

/-- In units of `2 ^ exponent`, what rounds to `x` lies within half a unit of its mantissa, at
the ends only when the mantissa is even. -/
theorem Rounds.scaled (hr : x.Rounds r) :
    (x.mantissa : ℚ) - 1 / 2 ≤ r / 2 ^ x.exponent ∧ r / 2 ^ x.exponent ≤ x.mantissa + 1 / 2 ∧
      (r / 2 ^ x.exponent = x.mantissa - 1 / 2 ∨ r / 2 ^ x.exponent = x.mantissa + 1 / 2 →
        x.mantissa % 2 = 0) := by
  have hp := two_zpow_pos x.exponent
  have hg := halfGapBelow_le x
  have hlow := (le_div_iff₀ hp).2 hr.low
  have hhigh := (div_le_iff₀ hp).2 hr.high
  refine ⟨by linarith, hhigh, fun ht => hr.tie ?_⟩
  rcases ht with ht | ht
  · -- the lower end of units is below the interval unless the gap is a half
    have hgap : x.halfGapBelow = 1 / 2 := by linarith
    left
    rw [hgap, ← ht, div_mul_cancel₀ _ hp.ne']
  · right
    rw [← ht, div_mul_cancel₀ _ hp.ne']

end

end Magnitude

/-! ## The target exponent -/

theorem targetExponent_binary64 (m : ℕ) (e : ℤ) :
    Format.binary64.targetExponent (totalExponent m e) = max ((m.log2 : ℤ) + e - 52) (-1074) := by
  simp only [Format.targetExponent, totalExponent, Format.mantissaBits, Format.minExponent]
  omega

section Target
variable {x : Magnitude} {r : ℚ} {m : ℕ} {e : ℤ} {acc : Accuracy}

/-- The exponent the model rounds at is the exponent of `x`, except just below a power of two
that is narrow below, where it is one less. -/
theorem target_cases (hx : x.Valid) (hr : x.Rounds r) (hm : Near (r / 2 ^ e) m acc)
    (hbits : 2 ^ 52 ≤ m ∨ e ≤ -1074) :
    max ((m.log2 : ℤ) + e - 52) (-1074) = x.exponent ∨
      (x.narrowBelow = true ∧ max ((m.log2 : ℤ) + e - 52) (-1074) = x.exponent - 1 ∧
        r < x.mantissa * 2 ^ x.exponent) := by
  have hq := hx.exponent_ge
  -- every bound of `r` by a power of two becomes a bound of the bits of `m`
  have hbelow : ∀ {a : ℤ}, 2 ^ a < r → a < m.log2 + 1 + e :=
    fun h => two_zpow_lt_two_zpow (h.trans hm.lt_two_zpow)
  have habove : 52 ≤ m.log2 → (m.log2 : ℤ) + e < x.exponent + 53 := fun hL =>
    two_zpow_lt_two_zpow ((hm.two_zpow_le (by rintro rfl; simp at hL)).trans_lt
      (hr.lt_two_zpow hx))
  have hL : 52 ≤ m.log2 ∨ e ≤ -1074 := by
    rcases hbits with h | h
    · exact .inl ((Nat.le_log2 ((Nat.two_pow_pos 52).trans_le h).ne').2 h)
    · exact .inr h
  -- the target is never above the exponent of `x`
  have hup : max ((m.log2 : ℤ) + e - 52) (-1074) ≤ x.exponent := by
    by_cases h52 : 52 ≤ m.log2
    · have := habove h52
      omega
    · omega
  rcases eq_or_lt_of_le hq with hq0 | hq0
  · -- at the least exponent the target is the least exponent
    left
    omega
  · cases hnb : x.narrowBelow with
    | false =>
      have h1 := hbelow (hr.two_zpow_lt hx hq0 hnb)
      left
      omega
    | true =>
      -- `m` has the 53 bits of `x`, or one fewer when `r` lies below the power of two
      have h1 := hbelow (hr.two_zpow_lt_of_narrow hx hnb)
      rcases (show max ((m.log2 : ℤ) + e - 52) (-1074) = x.exponent ∨
          (m.log2 : ℤ) + e = x.exponent + 51 by omega) with h | h
      · exact .inl h
      · right
        refine ⟨rfl, by omega, ?_⟩
        calc r < 2 ^ ((m.log2 : ℤ) + 1 + e) := hm.lt_two_zpow
          _ = 2 ^ (x.exponent + 52) := by congr 1; omega
          _ = x.mantissa * 2 ^ x.exponent := by
              rw [(hx.mantissa_of_narrow hnb).1]
              push_cast
              exact two_zpow_add _ 52

end Target

/-! ## Rounding -/

theorem shiftToTargetExponent_eq (spec : Format) (m : ℕ) (e : ℤ) (acc : Accuracy) :
    shiftToTargetExponent spec m e acc =
      (ExtendedMantissa.ofMantissaAndAccuracy m acc >>>
          (spec.targetExponent (totalExponent m e) - e).toNat,
        e + (spec.targetExponent (totalExponent m e) - e).toNat) := rfl

/-- The rounding step gives the mantissa of the second shift, when that is not zero. -/
theorem roundWithAccuracy_eq_finite {spec : Format} {s : Sign} {m : ℕ} {e : ℤ} {acc : Accuracy}
    {em₁ em₂ : ExtendedMantissa} {e₁ e₂ : ℤ} {M : ℕ} (h₁ : shiftToTargetExponent spec m e acc = (em₁, e₁))
    (h₂ : shiftToTargetExponent spec em₁.roundedMantissa e₁ .exact = (em₂, e₂))
    (hM : em₂.mantissa = M) (hpos : 0 < M) :
    roundWithAccuracy spec s m e acc = .finite s M e₂ hpos := by
  subst hM
  unfold roundWithAccuracy
  rw [h₁]
  dsimp only
  rw [h₂]
  dsimp only
  rw [dif_neg (Nat.pos_iff_ne_zero.1 hpos)]

section Shifts
variable {x : Magnitude}

/-- A binary64 magnitude is already at its target exponent: the second shift leaves it. -/
theorem shiftToTargetExponent_valid (hx : x.Valid) :
    shiftToTargetExponent Format.binary64 x.mantissa x.exponent .exact =
      (⟨x.mantissa, false, false⟩, x.exponent) := by
  have ht : Format.binary64.targetExponent (totalExponent x.mantissa x.exponent) = x.exponent := by
    rw [targetExponent_binary64]
    rcases hx with ⟨hq, hM, -⟩ | ⟨hM₁, hM₂, hq₁, -, -⟩
    · -- a subnormal has fewer than 53 bits
      have hlog : x.mantissa.log2 < 52 := by
        rcases Nat.eq_zero_or_pos x.mantissa with h0 | h0
        · simp [h0]
        · exact (Nat.log2_lt h0.ne').2 hM
      omega
    · have hlog : x.mantissa.log2 = 52 :=
        (Nat.log2_eq_iff ((Nat.two_pow_pos 52).trans_le hM₁).ne').2 ⟨hM₁, hM₂⟩
      omega
  rw [shiftToTargetExponent_eq, ht, sub_self]
  simp [HShiftRight.hShiftRight, Nat.repeat, ExtendedMantissa.ofMantissaAndAccuracy]

/-- A carry into a 54th bit is shifted out again, one exponent up. -/
theorem shiftToTargetExponent_carry {q : ℤ} (hq : -1074 < q) :
    shiftToTargetExponent Format.binary64 (2 ^ 53) (q - 1) .exact = (⟨2 ^ 52, false, false⟩, q) := by
  have ht : Format.binary64.targetExponent (totalExponent (2 ^ 53) (q - 1)) = q := by
    rw [targetExponent_binary64, Nat.log2_two_pow]
    omega
  have hk : (q - (q - 1)).toNat = 1 := by omega
  rw [shiftToTargetExponent_eq, ht, hk]
  simp [HShiftRight.hShiftRight, Nat.repeat, ExtendedMantissa.ofMantissaAndAccuracy,
    ExtendedMantissa.shiftRightOne]

end Shifts

section Round
variable {x : Magnitude} {r : ℚ} {m : ℕ} {e : ℤ} {acc : Accuracy}

/-- The first shift moves the mantissa to the target exponent and keeps where `r` lies. -/
theorem first_shift (hm : Near (r / 2 ^ e) m acc) (hbits : 2 ^ 52 ≤ m ∨ e ≤ -1074) :
    ∃ em, shiftToTargetExponent Format.binary64 m e acc =
        (em, max ((m.log2 : ℤ) + e - 52) (-1074)) ∧
      Near (r / 2 ^ max ((m.log2 : ℤ) + e - 52) (-1074)) em.mantissa em.accuracy := by
  set t := max ((m.log2 : ℤ) + e - 52) (-1074) with ht
  have het : e ≤ t := by
    rcases hbits with h | h
    · have := (Nat.le_log2 ((Nat.two_pow_pos 52).trans_le h).ne').2 h
      omega
    · omega
  have hk : e + ((t - e).toNat : ℤ) = t := by omega
  refine ⟨_, by rw [shiftToTargetExponent_eq, targetExponent_binary64, ← ht, hk], ?_⟩
  have hshift := near_shiftRight (near_ofMantissaAndAccuracy hm) (t - e).toNat
  rwa [div_div, ← zpow_natCast, ← zpow_add₀ two_ne_zero, hk] at hshift

/-- Rounding a value of the rounding interval of `x`, cut to a mantissa of at least 53 bits or
at the least exponent, gives `x`. -/
theorem roundWithAccuracy_of_rounds (hx : x.Valid) (h0 : 0 < x.mantissa) (hr : x.Rounds r)
    (hm : Near (r / 2 ^ e) m acc) (hbits : 2 ^ 52 ≤ m ∨ e ≤ -1074) :
    roundWithAccuracy Format.binary64 .positive m e acc = .finite .positive x.mantissa x.exponent h0 := by
  obtain ⟨em, h₁, hnear⟩ := first_shift hm hbits
  rcases target_cases hx hr hm hbits with hq | ⟨hnb, hq, hlt⟩
  · -- at the exponent of `x`, rounding gives its mantissa, which the second shift keeps
    rw [hq] at h₁ hnear
    obtain ⟨hlo, hhi, htie⟩ := hr.scaled
    have hR : em.roundedMantissa = x.mantissa := roundToNearestEven_eq hnear hlo hhi htie
    have h₂ : shiftToTargetExponent Format.binary64 em.roundedMantissa x.exponent .exact =
        (⟨x.mantissa, false, false⟩, x.exponent) := by
      rw [hR]
      exact shiftToTargetExponent_valid hx
    exact roundWithAccuracy_eq_finite h₁ h₂ rfl h0
  · -- one exponent down, just below `2 ^ 52` units: rounding carries into a 54th bit
    rw [hq] at h₁ hnear
    obtain ⟨hM, hq₀⟩ := hx.mantissa_of_narrow hnb
    have hp : (2 : ℚ) ^ x.exponent = 2 * 2 ^ (x.exponent - 1) := by
      rw [← zpow_one_add₀ two_ne_zero, add_sub_cancel]
    have hpos := two_zpow_pos (x.exponent - 1)
    have hlow : (2 ^ 53 - 1 / 2 : ℚ) ≤ r / 2 ^ (x.exponent - 1) := by
      have h := hr.low
      rw [Magnitude.halfGapBelow, if_pos hnb, hM, hp] at h
      push_cast at h
      rw [le_div_iff₀ hpos]
      linarith
    have hhigh : r / 2 ^ (x.exponent - 1) < 2 ^ 53 := by
      rw [hM, hp] at hlt
      push_cast at hlt
      rw [div_lt_iff₀ hpos]
      linarith
    have hR : em.roundedMantissa = 2 ^ 53 :=
      roundToNearestEven_eq hnear (by push_cast; linarith) (by push_cast; linarith)
        (fun _ => by norm_num)
    have h₂ : shiftToTargetExponent Format.binary64 em.roundedMantissa (x.exponent - 1) .exact =
        (⟨2 ^ 52, false, false⟩, x.exponent) := by
      rw [hR]
      exact shiftToTargetExponent_carry hq₀
    exact roundWithAccuracy_eq_finite h₁ h₂ hM.symm h0

/-- A binary64 magnitude rounds to itself. -/
theorem roundWithAccuracy_valid (hx : x.Valid) (h0 : 0 < x.mantissa) :
    roundWithAccuracy Format.binary64 .positive x.mantissa x.exponent .exact =
      .finite .positive x.mantissa x.exponent h0 :=
  roundWithAccuracy_eq_finite (shiftToTargetExponent_valid hx) (shiftToTargetExponent_valid hx)
    rfl h0

end Round

/-! ## Products and quotients -/

/-- A natural quotient and the accuracy of its remainder say where the exact quotient lies. -/
theorem near_div (n d : ℕ) (hd : 0 < d) :
    Near ((n : ℚ) / d) (n / d) (accuracyOfFraction (n % d) d) := by
  have hd' : (0 : ℚ) < d := by exact_mod_cast hd
  have hlt : n % d < d := Nat.mod_lt n hd
  -- `n / d` in `ℚ` is the whole quotient and the fraction of the remainder
  have hsplit : (n : ℚ) / d = (n / d : ℕ) + ((n % d : ℕ) : ℚ) / d := by
    have h := congrArg (Nat.cast : ℕ → ℚ) (Nat.div_add_mod n d)
    push_cast at h
    field_simp
    linarith
  have hw1 : ((n % d : ℕ) : ℚ) / d < 1 := by
    rw [div_lt_one hd']
    exact_mod_cast hlt
  rw [hsplit]
  unfold accuracyOfFraction
  split
  · rename_i h0
    simp [Near, h0]
  · rename_i h0
    have hw0 : 0 < ((n % d : ℕ) : ℚ) / d := div_pos (by exact_mod_cast Nat.pos_of_ne_zero h0) hd'
    rcases hc : compare (2 * (n % d)) d
    · have h2 : ((2 * (n % d) : ℕ) : ℚ) < d := by exact_mod_cast Nat.compare_eq_lt.1 hc
      have : ((n % d : ℕ) : ℚ) / d < 1 / 2 := by
        rw [div_lt_iff₀ hd']; push_cast at h2; linarith
      exact ⟨by linarith, by linarith⟩
    · have h2 : ((2 * (n % d) : ℕ) : ℚ) = d := by exact_mod_cast Nat.compare_eq_eq.1 hc
      have : ((n % d : ℕ) : ℚ) / d = 1 / 2 := by
        rw [div_eq_iff hd'.ne']; push_cast at h2; linarith
      show _ = _
      linarith
    · have h2 : (d : ℚ) < ((2 * (n % d) : ℕ) : ℚ) := by exact_mod_cast Nat.compare_eq_gt.1 hc
      have : 1 / 2 < ((n % d : ℕ) : ℚ) / d := by
        rw [lt_div_iff₀ hd']; push_cast at h2; linarith
      exact ⟨by linarith, by linarith⟩


/-- The quotient of `divCore` and its accuracy say where the exact quotient lies, and the
quotient has at least 53 bits unless its exponent is the least one. -/
theorem divCore_near {m₁ m₂ q : ℕ} {e₁ e₂ t : ℤ} {acc : Accuracy} (h₁ : 0 < m₁) (h₂ : 0 < m₂)
    (h : divCore Format.binary64 m₁ e₁ m₂ e₂ = (q, t, acc)) :
    Near (m₁ * 2 ^ e₁ / (m₂ * 2 ^ e₂) / 2 ^ t) q acc ∧ (2 ^ 52 ≤ q ∨ t ≤ -1074) := by
  have hT : Format.binary64.targetExponent (totalExponent m₁ e₁ - totalExponent m₂ e₂) =
      max ((m₁.log2 : ℤ) - m₂.log2 + e₁ - e₂ - 53) (-1074) := by
    simp only [Format.targetExponent, totalExponent, Format.mantissaBits, Format.minExponent]
    omega
  simp only [divCore, Prod.mk.injEq] at h
  obtain ⟨rfl, rfl, rfl⟩ := h
  rw [hT]
  set T := min (e₁ - e₂) (max ((m₁.log2 : ℤ) - m₂.log2 + e₁ - e₂ - 53) (-1074)) with hTdef
  obtain ⟨k, hk⟩ : ∃ k : ℕ, e₁ - e₂ - T = k := ⟨(e₁ - e₂ - T).toNat, by omega⟩
  rw [hk, Int.toNat_natCast, Nat.shiftLeft_eq]
  constructor
  · -- the dividend is shifted by exactly the exponents' difference above the target
    have hu : (m₁ * 2 ^ e₁ / (m₂ * 2 ^ e₂) / 2 ^ T : ℚ) = ((m₁ * 2 ^ k : ℕ) : ℚ) / m₂ := by
      have he : (2 : ℚ) ^ e₁ = 2 ^ k * 2 ^ e₂ * 2 ^ T := by
        rw [← zpow_natCast, ← zpow_add₀ two_ne_zero, ← zpow_add₀ two_ne_zero]
        congr 1
        omega
      rw [he]
      push_cast
      field_simp
    rw [hu]
    exact near_div _ _ h₂
  · by_cases hT0 : T ≤ -1074
    · exact .inr hT0
    · left
      -- above the least exponent, `k` makes up for the bits of `m₂` beyond those of `m₁`
      have hk' : m₂.log2 + 53 ≤ m₁.log2 + k := by omega
      rw [Nat.le_div_iff_mul_le h₂]
      calc 2 ^ 52 * m₂ ≤ 2 ^ 52 * 2 ^ (m₂.log2 + 1) := Nat.mul_le_mul_left _ Nat.lt_log2_self.le
        _ = 2 ^ (m₂.log2 + 53) := by rw [← pow_add]; ring_nf
        _ ≤ 2 ^ (m₁.log2 + k) := Nat.pow_le_pow_right (by norm_num) hk'
        _ = 2 ^ m₁.log2 * 2 ^ k := pow_add _ _ _
        _ ≤ m₁ * 2 ^ k := Nat.mul_le_mul_right _ (Nat.log2_self_le h₁.ne')

section Operations
variable {x : Magnitude} {m₁ m₂ : ℕ} {e₁ e₂ : ℤ}

/-- A product of two positive finite values that rounds to `x`, with 53 bits or at the least
exponent, is `x`. -/
theorem mul_of_rounds (hx : x.Valid) (h0 : 0 < x.mantissa) (h₁ : 0 < m₁) (h₂ : 0 < m₂)
    (hr : x.Rounds (m₁ * 2 ^ e₁ * (m₂ * 2 ^ e₂))) (hbits : 2 ^ 52 ≤ m₁ * m₂ ∨ e₁ + e₂ ≤ -1074) :
    UnpackedFloat.mul Format.binary64 (.finite .positive m₁ e₁ h₁) (.finite .positive m₂ e₂ h₂) =
      .finite .positive x.mantissa x.exponent h0 := by
  have hm : Near (m₁ * 2 ^ e₁ * (m₂ * 2 ^ e₂) / 2 ^ (e₁ + e₂)) (m₁ * m₂) .exact := by
    show _ = _
    rw [zpow_add₀ two_ne_zero]
    push_cast
    field_simp
  exact roundWithAccuracy_of_rounds hx h0 hr hm hbits

/-- A quotient of two positive finite values that rounds to `x` is `x`. -/
theorem div_of_rounds (hx : x.Valid) (h0 : 0 < x.mantissa) (h₁ : 0 < m₁) (h₂ : 0 < m₂)
    (hr : x.Rounds (m₁ * 2 ^ e₁ / (m₂ * 2 ^ e₂))) :
    UnpackedFloat.div Format.binary64 (.finite .positive m₁ e₁ h₁) (.finite .positive m₂ e₂ h₂) =
      .finite .positive x.mantissa x.exponent h0 := by
  obtain ⟨q, t, acc, hc⟩ : ∃ q t acc, divCore Format.binary64 m₁ e₁ m₂ e₂ = (q, t, acc) :=
    ⟨_, _, _, rfl⟩
  obtain ⟨hm, hbits⟩ := divCore_near h₁ h₂ hc
  simp only [UnpackedFloat.div, hc]
  exact roundWithAccuracy_of_rounds hx h0 hr hm hbits

end Operations

end ExprLang.Number
