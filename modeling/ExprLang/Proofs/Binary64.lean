import ExprLang.Proofs.Rounding

/-!
# Bit patterns of binary64 values

`Parts.ofBits` reads a value from its bit pattern in natural-number arithmetic; the binary64
model of `Float` reads the same pattern with bit vectors (`UnpackedFloat.unpack`) and writes
it back with `UnpackedFloat.pack`. This file shows that the two agree on finite values:

* a finite nonzero pattern unpacks to the magnitude `Parts.ofBits` reads (`unpack_of_ofBits`),
  and that magnitude has binary64 shape (`Parts.valid_of_ofBits`);
* packing a magnitude of binary64 shape gives a pattern that `Parts.ofBits` reads as it
  (`ofBits_pack`);
* a finite value is determined by its sign and magnitude (`Parts.ofBits_inj_finite`), so two
  `Float`s with the same parts are the same (`Parts.eq_of_ofFloat`);
* negation flips the sign and keeps the magnitude (`Parts.ofFloat_neg`).

Every field is compared as a natural number: the sign bit, the 11-bit exponent field and the
52-bit fraction field make up the pattern as `σ · 2 ^ 63 + f · 2 ^ 52 + g`
(`exists_fields`), and `omega` does the rest. What a finite reading says of those fields is
stated once (`Parts.ofBits_eq_finite`), and the facts about finite patterns start from it.
-/

namespace ExprLang.Number

open Float.Model Float.Model.UnpackedFloat

/-- The sign the binary64 model gives a value whose sign bit is `negative`. -/
def signOf (negative : Bool) : Sign := if negative then .negative else .positive

@[simp] theorem signOf_false : signOf false = .positive := rfl

theorem finite_congr {s s' : Sign} {m m' : ℕ} {e e' : ℤ} {h : 0 < m} {h' : 0 < m'} (hs : s = s')
    (hm : m = m') (he : e = e') : UnpackedFloat.finite s m e h = .finite s' m' e' h' := by
  subst hs hm he
  rfl

/-! ## The fields of a bit pattern -/

section Fields
variable (b : UInt64)

theorem toNat_unpackMantissa :
    (@unpackMantissa Format.binary64 b.toBitVec).toNat = b.toNat % 2 ^ 52 := by
  simp [unpackMantissa, BitVec.extractLsb_toNat]

theorem toNat_unpackExponent :
    (@unpackExponent Format.binary64 b.toBitVec).toNat = b.toNat / 2 ^ 52 % 2 ^ 11 := by
  simp [unpackExponent, BitVec.extractLsb_toNat, Nat.shiftRight_eq_div_pow]

theorem ofBitVec_unpackSign :
    Sign.ofBitVec (@unpackSign Format.binary64 b.toBitVec) = signOf (decide (2 ^ 63 ≤ b.toNat)) := by
  have hv : (@unpackSign Format.binary64 b.toBitVec).toNat = b.toNat / 2 ^ 63 % 2 := by
    simp [unpackSign, BitVec.extractLsb_toNat, Nat.shiftRight_eq_div_pow]
  have hn := b.toNat_lt
  unfold Sign.ofBitVec signOf
  by_cases h : 2 ^ 63 ≤ b.toNat
  · rw [if_neg, decide_eq_true h, if_pos rfl]
    intro h0
    rw [h0] at hv
    simp at hv
    omega
  · rw [if_pos, decide_eq_false h, if_neg Bool.false_ne_true]
    apply BitVec.eq_of_toNat_eq
    rw [hv]
    simp
    omega

end Fields

theorem toNat_one_append (F : BitVec 52) : (1#1 ++ F).toNat = 2 ^ 52 + F.toNat := by
  rw [BitVec.toNat_append, ← Nat.shiftLeft_add_eq_or_of_lt F.isLt, Nat.shiftLeft_eq]
  simp

/-- The bits of a packed sign, exponent field and fraction field. -/
theorem toNat_packComponents (s : Sign) (E : BitVec 11) (F : BitVec 52) :
    (packComponents Format.binary64 s E F).toNat = s.toBitVec.toNat * 2 ^ 63 + E.toNat * 2 ^ 52 + F.toNat := by
  simp only [packComponents, BitVec.toNat_append]
  rw [← Nat.shiftLeft_add_eq_or_of_lt E.isLt, ← Nat.shiftLeft_add_eq_or_of_lt F.isLt]
  simp only [Nat.shiftLeft_eq]
  ring

/-- `Parts.ofBits` of a pattern given by its sign bit, exponent field and fraction field. -/
theorem Parts.ofBits_fields {b : UInt64} {σ f g : ℕ} (hσ : σ < 2) (hf : f < 2 ^ 11) (hg : g < 2 ^ 52)
    (hb : b.toNat = σ * 2 ^ 63 + f * 2 ^ 52 + g) :
    Parts.ofBits b = if f = 2 ^ 11 - 1 then (if g = 0 then .infinite (σ == 1) else .nan)
      else if f = 0 then .finite (σ == 1) ⟨g, -1074, false⟩
      else .finite (σ == 1) ⟨2 ^ 52 + g, (f : ℤ) - 1075, g == 0 && decide (1 < f)⟩ := by
  have hneg : decide (Nat.pow 2 63 ≤ b.toNat) = (σ == 1) := by
    rw [Bool.eq_iff_iff, decide_eq_true_iff, beq_iff_eq, Nat.pow_eq]
    omega
  have hfield : b.toNat / Nat.pow 2 52 % Nat.pow 2 11 = f := by
    simp only [Nat.pow_eq]
    omega
  have hfrac : b.toNat % Nat.pow 2 52 = g := by
    simp only [Nat.pow_eq]
    omega
  unfold Parts.ofBits
  simp only [Parts.fractionBits, Parts.leastExponent, hneg, hfield, hfrac]
  rfl

/-- Every 64-bit pattern is a sign bit, an 11-bit exponent field and a 52-bit fraction field. -/
theorem exists_fields (b : UInt64) :
    ∃ σ f g, σ < 2 ∧ f < 2 ^ 11 ∧ g < 2 ^ 52 ∧ b.toNat = σ * 2 ^ 63 + f * 2 ^ 52 + g := by
  have hn := b.toNat_lt
  exact ⟨b.toNat / 2 ^ 63, b.toNat / 2 ^ 52 % 2 ^ 11, b.toNat % 2 ^ 52, by omega, by omega,
    by omega, by omega⟩

/-- What a finite reading says of a pattern: the sign bit is the sign, and the exponent field
`f`, below all ones, and the fraction field `g` give the magnitude, a subnormal one when `f` is
zero. -/
theorem Parts.ofBits_eq_finite {b : UInt64} {negative : Bool} {x : Magnitude}
    (h : Parts.ofBits b = .finite negative x) :
    ∃ f g, f < 2 ^ 11 - 1 ∧ g < 2 ^ 52 ∧ b.toNat = negative.toNat * 2 ^ 63 + f * 2 ^ 52 + g ∧
      (f = 0 ∧ x = ⟨g, -1074, false⟩ ∨
        0 < f ∧ x = ⟨2 ^ 52 + g, (f : ℤ) - 1075, g == 0 && decide (1 < f)⟩) := by
  obtain ⟨σ, f, g, hσ, hf, hg, hb⟩ := exists_fields b
  rw [Parts.ofBits_fields hσ hf hg hb] at h
  have hsign : (σ == 1) = negative → σ = negative.toNat := by
    intro hs
    cases negative <;> simp at hs ⊢ <;> omega
  split at h
  · split at h <;> cases h
  rename_i hmax
  split at h
  · -- a zero exponent field: a subnormal
    rename_i hzero
    obtain ⟨hs, rfl⟩ := Parts.finite.inj h
    exact ⟨f, g, by omega, hg, by rw [hb, hsign hs], .inl ⟨hzero, rfl⟩⟩
  · -- any other field below all ones: a normal value
    rename_i hzero
    obtain ⟨hs, rfl⟩ := Parts.finite.inj h
    exact ⟨f, g, by omega, hg, by rw [hb, hsign hs], .inr ⟨by omega, rfl⟩⟩

/-- `Parts.ofBits` reads a finite value of binary64 shape. -/
theorem Parts.valid_of_ofBits {b : UInt64} {negative : Bool} {x : Magnitude}
    (h : Parts.ofBits b = .finite negative x) : x.Valid := by
  obtain ⟨f, g, hf, hg, -, ⟨-, rfl⟩ | ⟨hf0, rfl⟩⟩ := Parts.ofBits_eq_finite h
  · exact .inl ⟨rfl, hg, rfl⟩
  · refine .inr ⟨by simp, by simp; omega, by simp; omega, by simp; omega, ?_⟩
    simp only [Bool.and_eq_true, beq_iff_eq, decide_eq_true_eq]
    omega

/-- The model unpacks a finite nonzero bit pattern to the magnitude that `Parts.ofBits` reads
from it. -/
theorem unpack_of_ofBits {b : UInt64} {negative : Bool} {x : Magnitude}
    (h : Parts.ofBits b = .finite negative x) (h0 : 0 < x.mantissa) :
    UnpackedFloat.unpack Format.binary64 b.toBitVec = .finite (signOf negative) x.mantissa x.exponent h0 := by
  obtain ⟨f, g, hf, hg, hb, hx⟩ := Parts.ofBits_eq_finite h
  -- the model's fields are the fields of the reading
  have hE : (@unpackExponent Format.binary64 b.toBitVec).toNat = f := by
    rw [toNat_unpackExponent]
    omega
  have hF : (@unpackMantissa Format.binary64 b.toBitVec).toNat = g := by
    rw [toNat_unpackMantissa]
    omega
  have hS : Sign.ofBitVec (@unpackSign Format.binary64 b.toBitVec) = signOf negative := by
    rw [ofBitVec_unpackSign]
    congr 1
    cases negative <;> simp only [Bool.toNat_false, Bool.toNat_true] at hb <;> simp <;> omega
  have hEmax : @unpackExponent Format.binary64 b.toBitVec ≠ -1#11 := fun he => by
    have hall : (-1#11 : BitVec 11).toNat = 2047 := by decide
    rw [← hE, he, hall] at hf
    omega
  unfold UnpackedFloat.unpack
  dsimp only
  rw [hS, if_neg hEmax]
  rcases hx with ⟨rfl, rfl⟩ | ⟨hf0, rfl⟩
  · -- a zero exponent field: a subnormal
    have hEz : @unpackExponent Format.binary64 b.toBitVec = 0#11 := BitVec.eq_of_toNat_eq hE
    have hFz : @unpackMantissa Format.binary64 b.toBitVec ≠ 0#52 := fun hz => by
      have := congrArg BitVec.toNat hz
      rw [hF, BitVec.toNat_zero] at this
      exact absurd this (Nat.pos_iff_ne_zero.1 h0)
    rw [if_pos hEz, dif_neg hFz]
    exact finite_congr rfl hF (by rw [hE]; rfl)
  · -- a normal exponent field: the leading bit is implicit
    have hEz : @unpackExponent Format.binary64 b.toBitVec ≠ 0#11 := fun hz => by
      have := congrArg BitVec.toNat hz
      rw [hE, BitVec.toNat_zero] at this
      omega
    rw [if_neg hEz]
    exact finite_congr rfl (by rw [toNat_one_append, hF]) (by rw [hE]; rfl)

theorem toNat_toBitVec_signOf (negative : Bool) : (signOf negative).toBitVec.toNat = negative.toNat := by
  cases negative <;> rfl

theorem signBit_signOf (negative : Bool) : (negative.toNat == 1) = negative := by
  cases negative <;> rfl

/-- Packing a binary64 magnitude gives the bit pattern `Parts.ofBits` reads it from. -/
theorem ofBits_pack {x : Magnitude} (hx : x.Valid) (h0 : 0 < x.mantissa) (negative : Bool) :
    Parts.ofBits (UInt64.ofBitVec (UnpackedFloat.pack Format.binary64
      (.finite (signOf negative) x.mantissa x.exponent h0))) = .finite negative x := by
  have hσ : negative.toNat < 2 := Bool.toNat_lt negative
  have hbias : (Format.binary64.exponentBias : ℤ) = 1023 := by decide
  obtain ⟨M, q, nb⟩ := x
  simp only [Magnitude.Valid] at hx h0
  unfold UnpackedFloat.pack
  dsimp only
  simp only [hbias]
  rcases hx with ⟨rfl, hM, rfl⟩ | ⟨hM₁, hM₂, hq₁, hq₂, hnb⟩
  · -- a subnormal has a zero exponent field
    have hlog : M.log2 + 1 ≠ Format.binary64.mantissaBits := by
      have := (Nat.log2_lt h0.ne').2 hM
      simp only [Format.mantissaBits]
      omega
    rw [if_neg (by decide), if_neg hlog]
    rw [Parts.ofBits_fields hσ (f := 0) (by decide) hM (by
      rw [UInt64.toNat_ofBitVec, toNat_packComponents, toNat_toBitVec_signOf]
      simp only [BitVec.toNat_ofNat]
      omega)]
    simp
  · -- a normal value has its biased exponent in the field and drops the leading bit
    have hlog : M.log2 + 1 = Format.binary64.mantissaBits := by
      have := (Nat.log2_eq_iff ((Nat.two_pow_pos 52).trans_le hM₁).ne').2 ⟨hM₁, hM₂⟩
      simp only [Format.mantissaBits]
      omega
    have hfield : (q + 1023 + 52).toNat < 2 ^ 11 := by omega
    rw [if_neg (by omega), if_pos hlog]
    rw [Parts.ofBits_fields hσ (f := (q + 1023 + 52).toNat) hfield (g := M % 2 ^ 52)
      (Nat.mod_lt _ (by decide)) (by
        rw [UInt64.toNat_ofBitVec, toNat_packComponents, toNat_toBitVec_signOf]
        simp only [BitVec.toNat_ofNat]
        omega)]
    rw [if_neg (by omega), if_neg (by omega), signBit_signOf]
    congr 2
    · omega
    · omega
    · cases nb <;> simp at hnb ⊢ <;> omega

/-- The bit pattern of a finite value, from its sign and magnitude. -/
theorem toNat_of_ofBits {b : UInt64} {negative : Bool} {x : Magnitude}
    (h : Parts.ofBits b = .finite negative x) :
    b.toNat = negative.toNat * 2 ^ 63 +
      (if x.mantissa < 2 ^ 52 then 0 else (x.exponent + 1075).toNat) * 2 ^ 52 +
        x.mantissa % 2 ^ 52 := by
  obtain ⟨f, g, -, hg, hb, ⟨rfl, rfl⟩ | ⟨hf0, rfl⟩⟩ := Parts.ofBits_eq_finite h
  · -- a subnormal: the fraction is the mantissa
    rw [if_pos hg, hb, Nat.mod_eq_of_lt hg]
  · -- a normal value: the fraction drops the leading bit of the mantissa
    dsimp only
    rw [if_neg (by omega), hb]
    omega

/-- Two bit patterns that `Parts.ofBits` reads as the same finite value are the same. -/
theorem Parts.ofBits_inj_finite {a b : UInt64} {negative : Bool} {x : Magnitude}
    (ha : Parts.ofBits a = .finite negative x) (hb : Parts.ofBits b = .finite negative x) :
    a = b :=
  UInt64.toNat_inj.1 ((toNat_of_ofBits ha).trans (toNat_of_ofBits hb).symm)

/-! ## Floats -/

theorem float_eq_of_toBits {a b : Float} (h : a.toBits = b.toBits) : a = b := by
  obtain ⟨⟨x, hx⟩⟩ := a
  obtain ⟨⟨y, hy⟩⟩ := b
  change x = y at h
  subst h
  rfl

/-- Two `Float`s with the same finite parts are the same. -/
theorem Parts.eq_of_ofFloat {a b : Float} {negative : Bool} {x : Magnitude}
    (ha : Parts.ofFloat a = .finite negative x) (hb : Parts.ofFloat b = .finite negative x) :
    a = b :=
  float_eq_of_toBits (Parts.ofBits_inj_finite ha hb)

/-- The model unpacks a finite nonzero `Float` to its magnitude. -/
theorem unpack_toModel {y : Float} {negative : Bool} {x : Magnitude}
    (h : Parts.ofFloat y = .finite negative x) (h0 : 0 < x.mantissa) :
    y.toModel.unpack = .finite (signOf negative) x.mantissa x.exponent h0 :=
  unpack_of_ofBits h h0

/-- A `Float` made by packing a magnitude of binary64 shape has that magnitude. -/
theorem Parts.ofFloat_pack {x : Magnitude} (hx : x.Valid) (h0 : 0 < x.mantissa)
    (negative : Bool) :
    Parts.ofFloat (Float.ofModel (Float.Model.pack
      (.finite (signOf negative) x.mantissa x.exponent h0))) = .finite negative x :=
  ofBits_pack hx h0 negative

/-- Negating a finite value that is not negative flips its sign bit, zero included. -/
theorem Parts.ofFloat_neg {y : Float} {x : Magnitude} (h : Parts.ofFloat y = .finite false x) :
    Parts.ofFloat (-y) = .finite true x := by
  have hx := Parts.valid_of_ofBits h
  rcases Nat.eq_zero_or_pos x.mantissa with h0 | h0
  · -- the positive zero is one bit pattern, and its negation is the negative zero
    have hbits : y.toBits = (Float.ofBits 0).toBits := by
      apply UInt64.toNat_inj.1
      rw [toNat_of_ofBits h, h0, if_pos (by norm_num)]
      decide
    rw [float_eq_of_toBits hbits, hx.eq_zero h0]
    decide
  · show Parts.ofFloat (Float.ofModel (Float.Model.pack y.toModel.unpack.neg)) = _
    rw [unpack_toModel h h0]
    exact Parts.ofFloat_pack hx h0 true

end ExprLang.Number
