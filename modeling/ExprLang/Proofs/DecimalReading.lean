import ExprLang.Proofs.Binary64
import ExprLang.Proofs.ShortestDigits
import ExprLang.Number.Read

/-!
# Reading a decimal

`ofDecimal D E` is `Float.ofScientific`, which has two paths. When `D < 2 ^ 53` and
`|E| ≤ 22`, both `D` and `10 ^ |E|` are exact binary64 values (`ofFloat_toFloat`, and the
table `ofFloat_powersOfTen`), and one product or quotient rounds. Otherwise the model
multiplies `D · 2 ^ 53 · 2 ^ (-53)` by `10 ^ E` or divides `D` by `10 ^ (-E)`, after two guards
that send far too large exponents to infinity and far too small ones to zero.

Either way the result is the binary64 magnitude whose rounding interval holds `D · 10 ^ E`
(`ofFloat_ofDecimal`): the product or quotient is rounded by `mul_of_rounds` or
`div_of_rounds`, and a decimal in the rounding interval of a finite value never reaches the
guards (`decimal_exponent_bounds`).
-/

namespace ExprLang.Number

open Float.Model Float.Model.UnpackedFloat

/-- The binary64 magnitude of a whole number below `2 ^ 53`: its bits moved up to 53. -/
def wholeMagnitude (n : ℕ) : Magnitude :=
  ⟨n * 2 ^ (52 - n.log2), (n.log2 : ℤ) - 52, decide (n = 2 ^ n.log2)⟩

section Whole
variable {n : ℕ}

theorem wholeMagnitude_bits (hn : 0 < n) (h53 : n < 2 ^ 53) :
    2 ^ 52 ≤ (wholeMagnitude n).mantissa ∧ (wholeMagnitude n).mantissa < 2 ^ 53 := by
  have hL : n.log2 < 53 := (Nat.log2_lt hn.ne').2 h53
  have hlo : 2 ^ n.log2 ≤ n := Nat.log2_self_le hn.ne'
  have hhi : n < 2 ^ (n.log2 + 1) := Nat.lt_log2_self
  constructor
  · calc 2 ^ 52 = 2 ^ n.log2 * 2 ^ (52 - n.log2) := by rw [← pow_add]; congr 1; omega
      _ ≤ n * 2 ^ (52 - n.log2) := Nat.mul_le_mul_right _ hlo
  · calc n * 2 ^ (52 - n.log2) < 2 ^ (n.log2 + 1) * 2 ^ (52 - n.log2) :=
          Nat.mul_lt_mul_of_pos_right hhi (by positivity)
      _ = 2 ^ 53 := by rw [← pow_add]; congr 1; omega

theorem wholeMagnitude_pos (hn : 0 < n) (h53 : n < 2 ^ 53) : 0 < (wholeMagnitude n).mantissa :=
  (Nat.two_pow_pos 52).trans_le (wholeMagnitude_bits hn h53).1

theorem wholeMagnitude_valid (hn : 0 < n) (h53 : n < 2 ^ 53) : (wholeMagnitude n).Valid := by
  obtain ⟨h1, h2⟩ := wholeMagnitude_bits hn h53
  have hL : n.log2 < 53 := (Nat.log2_lt hn.ne').2 h53
  refine .inr ⟨h1, h2, by simp only [wholeMagnitude]; omega, by simp only [wholeMagnitude]; omega, ?_⟩
  -- narrow below exactly when `n` is a power of two
  have hshift : 2 ^ n.log2 * 2 ^ (52 - n.log2) = 2 ^ 52 := by rw [← pow_add]; congr 1; omega
  simp only [wholeMagnitude, decide_eq_true_eq]
  constructor
  · intro h
    exact ⟨by nth_rewrite 1 [h]; exact hshift, by omega⟩
  · rintro ⟨h, -⟩
    exact Nat.eq_of_mul_eq_mul_right (by positivity) (h.trans hshift.symm)

theorem wholeMagnitude_value (hn : 0 < n) (h53 : n < 2 ^ 53) : (wholeMagnitude n).value = n := by
  have hL : n.log2 < 53 := (Nat.log2_lt hn.ne').2 h53
  simp only [wholeMagnitude, Magnitude.value]
  push_cast
  rw [mul_assoc, ← zpow_natCast, ← zpow_add₀ two_ne_zero]
  have he : ((52 - n.log2 : ℕ) : ℤ) + ((n.log2 : ℤ) - 52) = 0 := by omega
  rw [he, zpow_zero, mul_one]

/-- A whole number below `2 ^ 53` converts to a `Float` exactly. -/
theorem ofFloat_toFloat (hn : 0 < n) (h53 : n < 2 ^ 53) :
    Parts.ofFloat n.toUInt64.toFloat = .finite false (wholeMagnitude n) := by
  have hv := wholeMagnitude_valid hn h53
  have h0 := wholeMagnitude_pos hn h53
  have hL : n.log2 < 53 := (Nat.log2_lt hn.ne').2 h53
  -- the conversion rounds `n · 2 ^ 0`, shifted left to 53 bits
  have hround : UnpackedFloat.ofUInt64 Format.binary64 n.toUInt64 =
      roundWithAccuracy Format.binary64 .positive (wholeMagnitude n).mantissa
        (wholeMagnitude n).exponent .exact := by
    have hnat : n.toUInt64.toNat = n := by
      rw [Nat.toUInt64_eq, UInt64.toNat_ofNat', Nat.mod_eq_of_lt (by omega)]
    have hcmp : compare (n : ℤ) 0 = .gt := Int.compare_eq_gt.2 (by omega)
    have hs : ((0 : ℤ) - max ((n.log2 : ℤ) + 0 - 52) (-1074)).toNat = 52 - n.log2 := by omega
    have he : (0 : ℤ) - ((52 - n.log2 : ℕ) : ℤ) = (n.log2 : ℤ) - 52 := by omega
    simp only [UnpackedFloat.ofUInt64, UnpackedFloat.ofNat, UnpackedFloat.ofInt, UnpackedFloat.normalize, hnat,
      hcmp, UnpackedFloat.round, decreaseExponent, targetExponent_binary64, hs, Int.toNat_natCast,
      Nat.shiftLeft_eq, he]
    rfl
  show Parts.ofFloat (Float.ofModel (Float.Model.pack
    (UnpackedFloat.ofUInt64 Format.binary64 n.toUInt64))) = _
  rw [hround, roundWithAccuracy_valid hv h0]
  exact Parts.ofFloat_pack hv h0 false

end Whole

/-! ## Powers of ten -/

/-- The binary64 magnitude of `10 ^ k` for `k ≤ 22`: the bits of `5 ^ k`, with the factor
`2 ^ k` in the exponent. -/
def tenMagnitude (k : ℕ) : Magnitude :=
  ⟨(wholeMagnitude (5 ^ k)).mantissa, (wholeMagnitude (5 ^ k)).exponent + k,
    (wholeMagnitude (5 ^ k)).narrowBelow⟩

/-- The table of exact powers of ten behind the fast path of `Float.ofScientific`. -/
theorem ofFloat_powersOfTen :
    ∀ k (h : k < Float.exactlyRepresentablePowersOfTen.size),
      Parts.ofFloat Float.exactlyRepresentablePowersOfTen[k] = .finite false (tenMagnitude k) := by
  decide +kernel

theorem size_powersOfTen : Float.exactlyRepresentablePowersOfTen.size = 23 := rfl

theorem five_pow_lt_two_pow {k : ℕ} (hk : k ≤ 22) : 5 ^ k < 2 ^ 53 :=
  lt_of_le_of_lt (Nat.pow_le_pow_right (by norm_num) hk) (by norm_num)

theorem tenMagnitude_value {k : ℕ} (hk : k ≤ 22) : (tenMagnitude k).value = 10 ^ k := by
  have hv := wholeMagnitude_value (Nat.pow_pos (by norm_num)) (five_pow_lt_two_pow hk)
  simp only [tenMagnitude, Magnitude.value] at hv ⊢
  rw [zpow_add₀ two_ne_zero, ← mul_assoc, hv, zpow_natCast]
  push_cast
  rw [← mul_pow]
  norm_num

theorem tenMagnitude_pos (k : ℕ) (hk : k ≤ 22) : 0 < (tenMagnitude k).mantissa :=
  wholeMagnitude_pos (Nat.pow_pos (by norm_num)) (five_pow_lt_two_pow hk)

/-! ## Products and quotients of `Float`s -/

section Operations
variable {a b : Float} {xa xb x : Magnitude}

/-- Multiplying two positive finite `Float`s with 53 bits between them, or a product at the
least exponent, gives every magnitude whose rounding interval holds the product of their
values. -/
theorem Parts.ofFloat_mul (ha : Parts.ofFloat a = .finite false xa)
    (hb : Parts.ofFloat b = .finite false xb) (ha0 : 0 < xa.mantissa) (hb0 : 0 < xb.mantissa)
    (hx : x.Valid) (h0 : 0 < x.mantissa) (hr : x.Rounds (xa.value * xb.value))
    (hbits : 2 ^ 52 ≤ xa.mantissa * xb.mantissa ∨ xa.exponent + xb.exponent ≤ -1074) :
    Parts.ofFloat (a * b) = .finite false x := by
  show Parts.ofFloat (Float.ofModel (Float.Model.pack (UnpackedFloat.mul Format.binary64
    a.toModel.unpack b.toModel.unpack))) = _
  rw [unpack_toModel ha ha0, unpack_toModel hb hb0, signOf_false,
    mul_of_rounds hx h0 ha0 hb0 hr hbits]
  exact Parts.ofFloat_pack hx h0 false

/-- Dividing two positive finite `Float`s gives every magnitude whose rounding interval holds
the quotient of their values. -/
theorem Parts.ofFloat_div (ha : Parts.ofFloat a = .finite false xa)
    (hb : Parts.ofFloat b = .finite false xb) (ha0 : 0 < xa.mantissa) (hb0 : 0 < xb.mantissa)
    (hx : x.Valid) (h0 : 0 < x.mantissa) (hr : x.Rounds (xa.value / xb.value)) :
    Parts.ofFloat (a / b) = .finite false x := by
  show Parts.ofFloat (Float.ofModel (Float.Model.pack (UnpackedFloat.div Format.binary64
    a.toModel.unpack b.toModel.unpack))) = _
  rw [unpack_toModel ha ha0, unpack_toModel hb hb0, signOf_false, div_of_rounds hx h0 ha0 hb0 hr]
  exact Parts.ofFloat_pack hx h0 false

end Operations

/-! ## Bounds of what rounds to a magnitude -/

theorem two_zpow_le_ten_zpow {E : ℤ} (hE : 0 ≤ E) : (2 : ℚ) ^ E ≤ 10 ^ E :=
  zpow_le_zpow_left₀ hE (by norm_num) (by norm_num)

theorem ten_zpow_le_two_zpow {E : ℤ} (hE : E ≤ 0) : (10 : ℚ) ^ E ≤ 2 ^ E := by
  obtain ⟨n, rfl⟩ : ∃ n : ℕ, E = -n := ⟨(-E).toNat, by omega⟩
  rw [zpow_neg, zpow_neg, zpow_natCast, zpow_natCast]
  exact inv_anti₀ (by positivity) (pow_le_pow_left₀ (by norm_num) (by norm_num) n)

/-! ## Reading a decimal -/

section Reading
variable {x : Magnitude} {D : ℕ} {E : ℤ}

/-- A decimal that rounds to a binary64 magnitude has an exponent well inside the range where
`Float.ofScientific` computes. -/
theorem decimal_exponent_bounds (hx : x.Valid) (h0 : 0 < x.mantissa) (hD : 0 < D)
    (hr : x.Rounds (D * 10 ^ E)) : E < 1024 ∧ -1076 - (D.log2 : ℤ) < E := by
  have hD1 : (1 : ℚ) ≤ D := by exact_mod_cast hD
  have hten := zpow_pos (by norm_num : (0 : ℚ) < 10) E
  constructor
  · -- `2 ^ E ≤ D · 10 ^ E`, which is below `2 ^ 1024`
    rcases lt_or_ge E 0 with hE | hE
    · omega
    · have h := (two_zpow_le_ten_zpow hE).trans (le_mul_of_one_le_left hten.le hD1)
      have := two_zpow_lt_two_zpow (h.trans_lt (hr.lt_two_zpow hx))
      have := hx.exponent_le
      omega
  · -- `D · 10 ^ E < 2 ^ (log2 D + 1 + E)`, which is above `2 ^ (-1075)`
    rcases lt_or_ge E 0 with hE | hE
    · have hDl : (D : ℚ) < 2 ^ ((D.log2 : ℤ) + 1) := by
        rw [← Nat.cast_one (R := ℤ), ← Nat.cast_add, zpow_natCast]
        exact_mod_cast Nat.lt_log2_self
      have h : (D : ℚ) * 10 ^ E < 2 ^ ((D.log2 : ℤ) + 1 + E) := by
        rw [zpow_add₀ two_ne_zero]
        calc (D : ℚ) * 10 ^ E < 2 ^ ((D.log2 : ℤ) + 1) * 10 ^ E :=
              mul_lt_mul_of_pos_right hDl hten
          _ ≤ 2 ^ ((D.log2 : ℤ) + 1) * 2 ^ E :=
              mul_le_mul_of_nonneg_left (ten_zpow_le_two_zpow hE.le) (by positivity)
      have := two_zpow_lt_two_zpow ((hr.two_zpow_le hx h0).trans_lt h)
      omega
    · omega

/-- Reading `D · 10 ^ E` gives every binary64 magnitude whose rounding interval holds it, in the
fast path of `Float.ofScientific` (a product or quotient of two exact values) and in the slow
one (the model's own product or quotient). -/
theorem ofFloat_ofDecimal (hx : x.Valid) (h0 : 0 < x.mantissa) (hr : x.Rounds (D * 10 ^ E)) :
    Parts.ofFloat (ofDecimal D E) = .finite false x := by
  have hlow := hr.two_zpow_le hx h0
  have hD : 0 < D := by
    rcases Nat.eq_zero_or_pos D with rfl | hD
    · rw [Nat.cast_zero, zero_mul] at hlow
      linarith [two_zpow_pos (-1075)]
    · exact hD
  unfold ofDecimal Float.ofScientific
  split
  · -- the fast path: `D` and `10 ^ |E|` are exact, and one product or quotient rounds
    rename_i hfast
    have hk : E.natAbs ≤ 22 := hfast.2
    have hidx : E.natAbs < Float.exactlyRepresentablePowersOfTen.size := by
      rw [size_powersOfTen]
      omega
    have ha := ofFloat_toFloat hD hfast.1
    have hp := ofFloat_powersOfTen E.natAbs hidx
    have h0D := wholeMagnitude_pos hD hfast.1
    have h0P := tenMagnitude_pos _ hk
    have hvD := wholeMagnitude_value hD hfast.1
    have hvP := tenMagnitude_value hk
    dsimp only
    split
    · -- a negative exponent divides by `10 ^ |E|`
      rename_i hneg
      have hE : E = -(E.natAbs : ℤ) := by simp at hneg; omega
      have hr' : x.Rounds ((wholeMagnitude D).value / (tenMagnitude E.natAbs).value) := by
        rwa [hvD, hvP, div_eq_mul_inv, ← zpow_natCast, ← zpow_neg, ← hE]
      exact Parts.ofFloat_div ha hp h0D h0P hx h0 hr'
    · -- any other exponent multiplies, and `D` alone has 53 bits
      rename_i hneg
      have hE : E = (E.natAbs : ℤ) := by simp at hneg; omega
      have hr' : x.Rounds ((wholeMagnitude D).value * (tenMagnitude E.natAbs).value) := by
        rwa [hvD, hvP, ← zpow_natCast, ← hE]
      have hbits : 2 ^ 52 ≤ (wholeMagnitude D).mantissa * (tenMagnitude E.natAbs).mantissa :=
        (wholeMagnitude_bits hD hfast.1).1.trans (Nat.le_mul_of_pos_right _ h0P)
      exact Parts.ofFloat_mul ha hp h0D h0P hx h0 hr' (.inl hbits)
  · -- the slow path: the model multiplies `D · 2 ^ 53` by `10 ^ E` or divides `D` by `10 ^ (-E)`
    have hE : (if decide (E < 0) = true then Int.negOfNat E.natAbs else Int.ofNat E.natAbs) = E := by
      split <;> rename_i h <;> simp only [decide_eq_true_eq, Int.negOfNat_eq, Int.ofNat_eq_natCast] at h ⊢ <;> omega
    obtain ⟨hhi, hlo⟩ := decimal_exponent_bounds hx h0 hD hr
    show Parts.ofFloat (Float.ofModel (Float.Model.pack
      (UnpackedFloat.ofScientific Format.binary64 D _))) = _
    rw [hE]
    unfold UnpackedFloat.ofScientific
    rw [dif_neg hD.ne', if_neg (by change ¬ E > 2 ^ 11; omega),
      if_neg (by change ¬ E < -((2 ^ 11 : ℤ) + D.log2); omega)]
    split
    · rename_i hE0
      have h₁ : 0 < D <<< Format.binary64.mantissaBits := by
        rw [Nat.shiftLeft_eq]
        positivity
      have h₂ : 0 < 10 ^ E.toNat := by positivity
      have hr' : x.Rounds (((D <<< Format.binary64.mantissaBits : ℕ) : ℚ) *
          2 ^ (-(Format.binary64.mantissaBits : ℤ)) * (((10 ^ E.toNat : ℕ) : ℚ) * 2 ^ (0 : ℤ))) := by
        have hE' : E = (E.toNat : ℤ) := by omega
        have hv : ((D <<< Format.binary64.mantissaBits : ℕ) : ℚ) *
            2 ^ (-(Format.binary64.mantissaBits : ℤ)) * (((10 ^ E.toNat : ℕ) : ℚ) * 2 ^ (0 : ℤ)) =
            D * 10 ^ E.toNat := by
          rw [Nat.shiftLeft_eq, zpow_neg, zpow_natCast, zpow_zero]
          push_cast
          field_simp
        rw [hv, ← zpow_natCast, ← hE']
        exact hr
      have hbits : 2 ^ 52 ≤ (D <<< Format.binary64.mantissaBits) * 10 ^ E.toNat := by
        rw [Nat.shiftLeft_eq]
        calc 2 ^ 52 ≤ 1 * 2 ^ Format.binary64.mantissaBits * 1 := by
              simp [Format.mantissaBits]
          _ ≤ D * 2 ^ Format.binary64.mantissaBits * 10 ^ E.toNat := by gcongr <;> omega
      rw [mul_of_rounds hx h0 h₁ h₂ hr' (.inl hbits)]
      exact Parts.ofFloat_pack hx h0 false
    · rename_i hE0
      have h₂ : 0 < 10 ^ (-E).toNat := by positivity
      have hr' : x.Rounds ((D : ℚ) * 2 ^ (0 : ℤ) / (((10 ^ (-E).toNat : ℕ) : ℚ) * 2 ^ (0 : ℤ))) := by
        have hE' : E = -((-E).toNat : ℤ) := by omega
        have hv : (D : ℚ) * 2 ^ (0 : ℤ) / (((10 ^ (-E).toNat : ℕ) : ℚ) * 2 ^ (0 : ℤ)) =
            D * ((10 : ℚ) ^ (-E).toNat)⁻¹ := by
          rw [zpow_zero]
          push_cast
          field_simp
        rw [hv, ← zpow_natCast, ← zpow_neg, ← hE']
        exact hr
      rw [div_of_rounds hx h0 hD h₂ hr']
      exact Parts.ofFloat_pack hx h0 false

end Reading

end ExprLang.Number
