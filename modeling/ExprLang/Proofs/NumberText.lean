import ExprLang.Proofs.DecimalReading
import ExprLang.Proofs.Scanning

/-!
# Number text reads back

The text of every finite number reads back as the number (`read?_text`):

> `Parts.ofFloat x = .finite negative m` gives `read? (text x) = some x`.

The text is a minus sign for a negative number, then the shortest digits of the magnitude in
positional notation. The digits lie in the rounding interval of the magnitude
(`Magnitude.rounds_shortest`); the positional text reads as a decimal of the same value
(`decimal?_positional`); and reading that decimal gives the magnitude
(`ofFloat_ofDecimal`). A minus sign negates what the digits read as (`read?_minus`), which
flips the sign bit (`Parts.ofFloat_neg`); a zero is written `0` and reads as the positive
zero, so `-0` reads as the negative zero. Two `Float`s with the same sign and magnitude are
the same (`Parts.eq_of_ofFloat`).
-/

namespace ExprLang.Number

/-! ## Decimals in text -/

theorem digitsValue_eq (ds : List Char) : digitsValue ds = Nat.ofDigitChars 10 ds 0 := rfl

section Decimal
variable {ws fs : List Char}

/-- Digits alone read as their value with exponent `0`. -/
theorem decimal?_digits (hw : ∀ c ∈ ws, c.isDigit) (hne : ws ≠ []) :
    decimal? ws = some (digitsValue ws, 0) := by
  have ht : ws.takeWhile Char.isDigit = ws := List.takeWhile_eq_self_iff.2 hw
  have hd : ws.dropWhile Char.isDigit = [] := List.dropWhile_eq_nil_iff.2 hw
  unfold decimal?
  simp [ht, hd, hne]

/-- Digits, a point and digits read as all the digits, scaled by the digits after the point. -/
theorem decimal?_point (hw : ∀ c ∈ ws, c.isDigit) (hf : ∀ c ∈ fs, c.isDigit) (hne : ws ≠ []) :
    decimal? (ws ++ '.' :: fs) = some (digitsValue (ws ++ fs), -(fs.length : ℤ)) := by
  have hdot : ¬ Char.isDigit '.' = true := by decide
  have ht : (ws ++ '.' :: fs).takeWhile Char.isDigit = ws := by
    rw [List.takeWhile_append_of_pos hw, List.takeWhile_cons_of_neg hdot, List.append_nil]
  have hd : (ws ++ '.' :: fs).dropWhile Char.isDigit = '.' :: fs := by
    rw [List.dropWhile_append_of_pos hw, List.dropWhile_cons_of_neg hdot]
  have ht' : fs.takeWhile Char.isDigit = fs := List.takeWhile_eq_self_iff.2 hf
  have hd' : fs.dropWhile Char.isDigit = [] := List.dropWhile_eq_nil_iff.2 hf
  unfold decimal?
  simp [ht, hd, ht', hd', hne]

end Decimal

theorem toList_digitText (d : Decimal) : d.digitText.toList = Nat.toDigits 10 d.digits := by
  rw [Decimal.digitText, Nat.toString_eq_ofList_toDigits, String.toList_ofList]

/-- The positional text of a decimal reads back as a decimal of the same value. -/
theorem decimal?_positional (d : Decimal) :
    ∃ D E, decimal? (d.positional false).toList = some (D, E) ∧ (D : ℚ) * 10 ^ E = d.value := by
  have hdig := digitText_isDigit d
  have hne := digitText_ne_nil d
  have hval : digitsValue d.digitText.toList = d.digits := by
    rw [digitsValue_eq, toList_digitText, Nat.ofDigitChars_ten_toDigits]
  have hzeros : ∀ {n : ℕ}, ∀ c ∈ List.replicate n '0', c.isDigit = true := fun c hc => by
    rw [List.eq_of_mem_replicate hc]
    rfl
  unfold Decimal.positional
  dsimp only
  split
  · -- zeros up to the point
    rename_i he
    refine ⟨d.digits * 10 ^ d.exponent.toNat, 0, ?_, ?_⟩
    · rw [if_neg Bool.false_ne_true, String.append_empty, String.toList_append, toList_zeros]
      rw [decimal?_digits]
      · rw [digitsValue_eq, Nat.ofDigitChars_append, ← digitsValue_eq, hval,
          Nat.ofDigitChars_replicate_zero, Nat.mul_comm]
      · intro c hc
        rcases List.mem_append.1 hc with hc | hc
        · exact hdig c hc
        · exact hzeros c hc
      · simp [hne]
    · rw [Decimal.value, zpow_zero, mul_one]
      push_cast
      rw [← zpow_natCast, Int.toNat_of_nonneg he]
  · split
    · -- a point inside the digits
      rename_i hneg hlt
      refine ⟨d.digits, d.exponent, ?_, rfl⟩
      have hsplit : (String.ofList (d.digitText.toList.take (d.digitText.length - (-d.exponent).toNat)) ++
          "." ++ String.ofList (d.digitText.toList.drop (d.digitText.length - (-d.exponent).toNat))).toList =
          d.digitText.toList.take (d.digitText.length - (-d.exponent).toNat) ++
            '.' :: d.digitText.toList.drop (d.digitText.length - (-d.exponent).toNat) := by
        simp
      rw [hsplit, decimal?_point (fun c hc => hdig c (List.mem_of_mem_take hc))
        (fun c hc => hdig c (List.mem_of_mem_drop hc)), List.take_append_drop, hval]
      · rw [Option.some.injEq, Prod.mk.injEq]
        refine ⟨rfl, ?_⟩
        simp only [List.length_drop, String.length_toList]
        omega
      · rw [Ne, List.take_eq_nil_iff, not_or]
        exact ⟨by omega, hne⟩
    · -- `0.` and zeros before the digits
      rename_i hneg hge
      refine ⟨d.digits, d.exponent, ?_, rfl⟩
      have hsplit : ("0." ++ zeros ((-d.exponent).toNat - d.digitText.length) ++ d.digitText).toList =
          ['0'] ++ '.' :: (List.replicate ((-d.exponent).toNat - d.digitText.length) '0' ++
            d.digitText.toList) := by
        simp [toList_zeros]
      have hfrac : ∀ c ∈ List.replicate ((-d.exponent).toNat - d.digitText.length) '0' ++
          d.digitText.toList, c.isDigit := by
        intro c hc
        rcases List.mem_append.1 hc with hc | hc
        · exact hzeros c hc
        · exact hdig c hc
      have hzero : ∀ c ∈ ['0'], c.isDigit = true := hzeros (n := 1)
      rw [hsplit, decimal?_point hzero hfrac (List.cons_ne_nil _ _), Option.some.injEq,
        Prod.mk.injEq]
      constructor
      · -- leading zeros add nothing to the value
        rw [← List.append_assoc, digitsValue_eq, Nat.ofDigitChars_append, Nat.ofDigitChars_append,
          Nat.ofDigitChars_replicate_zero]
        rw [show Nat.ofDigitChars 10 ['0'] 0 = 0 from rfl, Nat.mul_zero, ← digitsValue_eq, hval]
      · simp only [List.length_append, List.length_replicate, String.length_toList]
        omega

/-! ## Signs and words -/

theorem splitSign_of_isDigit {c : Char} (u : List Char) (hc : c.isDigit = true) :
    splitSign (c :: u) = (false, c :: u) := by
  have hminus : c ≠ '-' := by rintro rfl; exact absurd hc (by decide)
  have hplus : c ≠ '+' := by rintro rfl; exact absurd hc (by decide)
  unfold splitSign
  split <;> simp_all

/-- The text of a finite number: the digits of its magnitude, after a minus sign if it is
negative. -/
theorem text_finite {x : Float} {negative : Bool} {m : Magnitude}
    (h : Parts.ofFloat x = .finite negative m) :
    text x = (if negative then "-" else "") ++ m.shortest.render Style.plain := by
  rw [text, h]
  rfl

/-- A plain decimal starts with a digit. -/
theorem PlainDecimal.exists_head {d : List Char} (hd : PlainDecimal d) :
    ∃ c u, d = c :: u ∧ c.isDigit = true := by
  obtain ⟨whole, frac, rfl, hne, hw, -⟩ := hd
  obtain ⟨c, w', rfl⟩ := List.exists_cons_of_ne_nil hne
  exact ⟨c, w' ++ frac, rfl, hw c List.mem_cons_self⟩

/-- A minus sign in front of a plain decimal negates what the decimal reads as. -/
theorem read?_minus {d : List Char} (hd : PlainDecimal d) :
    read? ("-" ++ String.ofList d) = (read? (String.ofList d)).map fun y => -y := by
  obtain ⟨c, u, rfl, hc⟩ := hd.exists_head
  have hminus : ("-" ++ String.ofList (c :: u)).toList = '-' :: c :: u := by simp
  unfold read?
  rw [hminus, String.toList_ofList, splitSign_of_isDigit u hc,
    show splitSign ('-' :: c :: u) = (true, c :: u) from rfl]
  simp


theorem toLower_of_isDigit {c : Char} (hc : c.isDigit = true) : c.toLower = c := by
  have hn := Char.isDigit_iff_toNat.1 hc
  rw [show '0'.toNat = 48 from rfl, show '9'.toNat = 57 from rfl] at hn
  unfold Char.toLower
  apply dif_neg
  rintro ⟨h1, -⟩
  have h65 : 65 ≤ c.toNat := h1
  omega

/-- A plain decimal is read by `decimal?`: it is no word, and it has no sign. -/
theorem read?_plain {cs : List Char} (hd : PlainDecimal cs) :
    read? (String.ofList cs) = (decimal? cs).map fun p => ofDecimal p.1 p.2 := by
  obtain ⟨c, u, rfl, hc⟩ := hd.exists_head
  -- the words start with a letter, the text with a digit
  have hword : ∀ s : String, s.toList.head? = some 'i' ∨ s.toList.head? = some 'n' →
      String.ofList ((c :: u).map Char.toLower) ≠ s := by
    rintro s hs rfl
    rw [String.toList_ofList, List.map_cons, List.head?_cons, toLower_of_isDigit hc] at hs
    rcases hs with hs | hs <;> cases hs <;> exact absurd hc (by decide)
  unfold read?
  rw [String.toList_ofList, splitSign_of_isDigit u hc]
  dsimp only
  rw [if_neg (not_or.2 ⟨hword "inf" (.inl rfl), hword "infinity" (.inl rfl)⟩),
    if_neg (hword "nan" (.inr rfl))]
  cases decimal? (c :: u) <;> rfl

/-! ## The round trip -/

theorem render_plain {d : Decimal} (hd : d.digits ≠ 0) :
    d.render Style.plain = d.positional false := by
  simp [Decimal.render, Style.plain, hd]

/-- The shortest digits of a binary64 magnitude read back as the magnitude. -/
theorem read?_shortest {m : Magnitude} (hm : m.Valid) :
    ∃ y, read? (m.shortest.render Style.plain) = some y ∧ Parts.ofFloat y = .finite false m := by
  rcases Nat.eq_zero_or_pos m.mantissa with h0 | h0
  · -- zero is written `0`, which reads as the positive zero
    rw [hm.eq_zero h0]
    exact ⟨ofDecimal 0 0, by decide +kernel, by decide +kernel⟩
  · have hr := Magnitude.rounds_shortest h0
    have hpos : 0 < m.shortest.value := (two_zpow_pos _).trans_le (hr.two_zpow_le hm h0)
    have hd : m.shortest.digits ≠ 0 := fun h => by
      rw [Decimal.value, h, Nat.cast_zero, zero_mul] at hpos
      exact lt_irrefl _ hpos
    obtain ⟨D, E, hdec, hval⟩ := decimal?_positional m.shortest
    refine ⟨ofDecimal D E, ?_, ofFloat_ofDecimal hm h0 (hval ▸ hr)⟩
    rw [render_plain hd, ← String.ofList_toList (s := m.shortest.positional false),
      read?_plain (by simpa [render_plain hd] using plainDecimal_render m.shortest), hdec]
    rfl

/-- The text of every finite number reads back as the number, negative numbers and the
negative zero included. -/
theorem read?_text {x : Float} {negative : Bool} {m : Magnitude}
    (h : Parts.ofFloat x = .finite negative m) : read? (text x) = some x := by
  obtain ⟨y, hy, hpy⟩ := read?_shortest (Parts.valid_of_ofBits h)
  rw [text_finite h]
  cases negative with
  | false =>
    rw [if_neg Bool.false_ne_true, String.empty_append, hy, Parts.eq_of_ofFloat hpy h]
  | true =>
    rw [if_pos rfl, ← String.ofList_toList (s := m.shortest.render Style.plain),
      read?_minus (plainDecimal_render m.shortest), String.ofList_toList, hy, Option.map_some,
      Parts.eq_of_ofFloat (Parts.ofFloat_neg hpy) h]

end ExprLang.Number
