import ExprLang.Proofs.Lexemes
import ExprLang.Tree
import Mathlib

/-!
# Scanning printed text

`Tree.render` prints every part of a tree in a form that the scanner reads back as one token,
provided the printed form goes on in the way it does: a part is followed by nothing, by a
closing bracket, or by a blank and an operator (`Token.Follows`). This file proves that of
each kind of printed token, and states the result on the tokens of a whole text,
`Lexeme.tokens`:

* a string literal, quotes and backslashes escaped, is read back as its string
  (`Lexeme.tokens_quoteLiteral`);
* a plain decimal (`Number.PlainDecimal`, digits with at most one point), which is how a finite
  number that is not negative is printed (`Number.plainDecimal_text`), is read back as the
  value that reading the decimal gives (`Lexeme.tokens_plain`);
* a word is read back as itself, and the scanner reads every symbol as a word of that kind
  (`Token.SymbolName`, `Lexeme.symbolName_of_mem_tokens`): a letter and a `Token.SymbolTail`.

The last point carries the argument. The scanner joins the runs of a symbol across blanks,
dots and bracket groups, so a symbol's name is not the text it was read from; but the name
has the shape of a `SymbolTail`, and a tail is read back whole before anything that `Follows`
(`Token.symbolRest_of_tail`). A bracket group looks at nothing after its closing bracket
(`Token.group_append`), so it is read back verbatim.
-/

namespace ExprLang

namespace Tree

/-- The characters that stand for one character inside a string literal. -/
def escapeChar (c : Char) : List Char :=
  if c = '"' ∨ c = '\\' then ['\\', c] else [c]

theorem toList_quoteLiteral (s : String) :
    (quoteLiteral s).toList = '"' :: s.toList.flatMap escapeChar ++ ['"'] := by
  have he : (fun c => (if c = '"' ∨ c = '\\' then "\\" ++ c.toString else c.toString).toList) =
      escapeChar := by
    funext c
    by_cases hc : c = '"' ∨ c = '\\' <;> simp [escapeChar, hc]
  simp only [quoteLiteral, String.toList_append, String.toList_join, List.flatMap_map]
  rw [he]
  rfl

end Tree

namespace Number

/-- A plain decimal: digits, then possibly a point and more digits; no sign and no exponent. -/
def PlainDecimal (cs : List Char) : Prop :=
  ∃ whole frac, cs = whole ++ frac ∧ whole ≠ [] ∧ (∀ c ∈ whole, c.isDigit) ∧
    (frac = [] ∨ ∃ ds, frac = '.' :: ds ∧ ∀ c ∈ ds, c.isDigit)

theorem digitText_isDigit (d : Decimal) : ∀ c ∈ d.digitText.toList, c.isDigit := by
  intro c hc
  rw [Decimal.digitText, Nat.toString_eq_ofList_toDigits, String.toList_ofList] at hc
  exact Nat.isDigit_of_mem_toDigits (by decide) (by decide) hc

theorem digitText_ne_nil (d : Decimal) : d.digitText.toList ≠ [] := by
  rw [Decimal.digitText, Nat.toString_eq_ofList_toDigits, String.toList_ofList]
  exact Nat.toDigits_ne_nil

theorem toList_zeros (n : Nat) : (zeros n).toList = List.replicate n '0' := by
  simp [zeros]

theorem plainDecimal_positional {d : Decimal} :
    PlainDecimal (d.positional false).toList := by
  have hdig := digitText_isDigit d
  have hne := digitText_ne_nil d
  unfold Decimal.positional
  dsimp only
  split
  · refine ⟨d.digitText.toList ++ List.replicate d.exponent.toNat '0', [], ?_, ?_, ?_, .inl rfl⟩
    · simp [toList_zeros]
    · simp [hne]
    · intro c hc
      rcases List.mem_append.1 hc with hc | hc
      · exact hdig c hc
      · rw [List.eq_of_mem_replicate hc]; rfl
  · split
    · rename_i hneg hlt
      refine ⟨d.digitText.toList.take (d.digitText.length - (-d.exponent).toNat),
        '.' :: d.digitText.toList.drop (d.digitText.length - (-d.exponent).toNat), ?_, ?_, ?_, ?_⟩
      · simp
      · rw [Ne, List.take_eq_nil_iff, not_or]
        exact ⟨by omega, hne⟩
      · exact fun c hc => hdig c (List.mem_of_mem_take hc)
      · exact .inr ⟨_, rfl, fun c hc => hdig c (List.mem_of_mem_drop hc)⟩
    · refine ⟨['0'], '.' :: (List.replicate ((-d.exponent).toNat - d.digitText.length) '0' ++ d.digitText.toList),
        ?_, by simp, by simp, ?_⟩
      · simp [toList_zeros]
      · refine .inr ⟨_, rfl, fun c hc => ?_⟩
        rcases List.mem_append.1 hc with hc | hc
        · rw [List.eq_of_mem_replicate hc]; rfl
        · exact hdig c hc

/-- Every decimal is written as a plain decimal wherever the language shows a number. -/
theorem plainDecimal_render (d : Decimal) : PlainDecimal (d.render Style.plain).toList := by
  simp only [Decimal.render, Style.plain]
  split
  · exact ⟨['0'], [], by simp, by simp, by simp, .inl rfl⟩
  · exact plainDecimal_positional

theorem plainDecimal_text {x : Float} {m : Magnitude} (h : Parts.ofFloat x = .finite false m) :
    PlainDecimal (text x).toList := by
  rw [text, h]
  simpa [Parts.render] using plainDecimal_render m.shortest

end Number

namespace Token

open Text (isBlank)
open ExprLang.Tree (escapeChar)
open Number (PlainDecimal)

/-! ## The first character decides -/

theorem isBlank_eq_false {c : Char} (h : c.isAlphanum = true) : isBlank c = false := by
  simp only [isBlank, Bool.or_eq_false_iff, beq_eq_false_iff_ne, ne_eq]
  refine ⟨⟨⟨⟨?_, ?_⟩, ?_⟩, ?_⟩, ?_⟩ <;> (rintro rfl; exact absurd h (by decide))

theorem isAlphanum_of_isAlpha {c : Char} (h : c.isAlpha = true) : c.isAlphanum = true := by
  simp [Char.isAlphanum, h]

theorem isAlphanum_of_isDigit {c : Char} (h : c.isDigit = true) : c.isAlphanum = true := by
  simp [Char.isAlphanum, h]

theorem isDigit_eq_false_of_isAlpha {c : Char} (h : c.isAlpha = true) : c.isDigit = false := by
  simp only [Char.isAlpha, Char.isUpper, Char.isLower, Bool.or_eq_true, Bool.and_eq_true,
    decide_eq_true_eq] at h
  unfold Char.isDigit
  simp only [UInt32.le_iff_toNat_le] at h ⊢
  grind

theorem scan_dropWhile_blank (cs : List Char) : scan (cs.dropWhile isBlank) = scan cs := by
  unfold scan
  rw [List.dropWhile_idempotent]

theorem scan_cons {c : Char} {r : List Char} (h : isBlank c = false) :
    scan (c :: r) = scanAt c r := by
  simp [scan, List.dropWhile_cons_of_neg, h]

theorem scanAt_of_isDigit {c : Char} (r : List Char) (h : c.isDigit = true) :
    scanAt c r = (numberToken (numberText (c :: r)).1, (numberText (c :: r)).2) := by
  unfold scanAt
  split
  case h_16 => simp [h]
  all_goals exact absurd h (by decide)

theorem scanAt_of_isAlpha {c : Char} (r : List Char) (h : c.isAlpha = true) :
    scanAt c r = match symbolRest [c] r with
      | .ok (s, t) => (ofWord (String.ofList s), t)
      | .error m => (.invalid m, []) := by
  unfold scanAt
  split
  case h_16 =>
    refine (if_neg (by simp [isDigit_eq_false_of_isAlpha h])).trans ?_
    refine (if_pos h).trans ?_
    rcases symbolRest [c] r with m | ⟨s, t⟩ <;> rfl
  all_goals exact absurd h (by decide)

/-! ## String literals -/

theorem quotedBody_escaped (cs r : List Char) :
    quotedBody (cs.flatMap escapeChar ++ '"' :: r) = some (cs, r) := by
  induction cs with
  | nil => rfl
  | cons c cs ih =>
    rw [List.flatMap_cons, List.append_assoc]
    by_cases hq : c = '"'
    · subst hq
      show quotedBody ('\\' :: '"' :: (cs.flatMap escapeChar ++ '"' :: r)) = _
      rw [quotedBody, ih]
      rfl
    · by_cases hb : c = '\\'
      · subst hb
        show quotedBody ('\\' :: '\\' :: (cs.flatMap escapeChar ++ '"' :: r)) = _
        rw [quotedBody, ih]
        rfl
      · rw [escapeChar, if_neg (not_or.2 ⟨hq, hb⟩), List.singleton_append,
          quotedBody.eq_5 _ _ hq (fun _ h => absurd h hb) (fun _ h => absurd h hb), ih]
        rfl

theorem scan_quoteLiteral (s : String) (r : List Char) :
    scan ((Tree.quoteLiteral s).toList ++ r) = (.string s, r) := by
  simp only [Tree.toList_quoteLiteral, List.cons_append, List.append_assoc, List.nil_append]
  show scanAt '"' _ = _
  simp only [scanAt, quotedBody_escaped, String.ofList_toList]

/-! ## Plain decimals -/

/-- Text before which a number ends: nothing, a closing bracket or a blank. -/
theorem numberText_plain {d r : List Char} (hd : PlainDecimal d)
    (hr : ∀ c ∈ r.head?, c = ')' ∨ c = ' ') : numberText (d ++ r) = (d, r) := by
  obtain ⟨whole, frac, rfl, hne, hw, hf⟩ := hd
  have hrd : r.takeWhile Char.isDigit = [] ∧ r.dropWhile Char.isDigit = r := by
    match r, hr with
    | [], _ => exact ⟨rfl, rfl⟩
    | c :: r', hr => rcases hr c rfl with rfl | rfl <;> exact ⟨rfl, rfl⟩
  have hfr : fractionPart r = ([], r) ∧ exponentPart r = ([], r) := by
    match r, hr with
    | [], _ => exact ⟨rfl, rfl⟩
    | c :: r', hr => rcases hr c rfl with rfl | rfl <;> exact ⟨rfl, rfl⟩
  rcases hf with rfl | ⟨ds, rfl, hds⟩
  · simp only [numberText, List.append_nil, List.takeWhile_append_of_pos hw, hrd.1,
      List.dropWhile_append_of_pos hw, hrd.2, hfr.1, hfr.2]
  · have hdot : ¬ ('.'.isDigit = true) := by decide
    simp only [numberText, List.append_assoc, List.takeWhile_append_of_pos hw,
      List.dropWhile_append_of_pos hw, List.cons_append, List.takeWhile_cons_of_neg hdot,
      List.dropWhile_cons_of_neg hdot, fractionPart, List.takeWhile_append_of_pos hds,
      List.dropWhile_append_of_pos hds, hrd.1, hrd.2, hfr.2, List.append_nil]

theorem scan_plain {d r : List Char} {x : Float} (hd : Number.PlainDecimal d)
    (hx : Number.read? (String.ofList d) = some x) (hr : ∀ c ∈ r.head?, c = ')' ∨ c = ' ') :
    scan (d ++ r) = (.number x, r) := by
  have hnt := numberText_plain hd hr
  obtain ⟨whole, frac, rfl, hne, hw, -⟩ := hd
  obtain ⟨c, w', rfl⟩ := List.exists_cons_of_ne_nil hne
  have hc : c.isDigit = true := hw c List.mem_cons_self
  rw [List.append_assoc, List.cons_append, scan_cons (isBlank_eq_false (isAlphanum_of_isDigit hc)),
    scanAt_of_isDigit _ hc, ← List.cons_append, ← List.append_assoc, hnt]
  simp only [numberToken, hx]

/-! ## Bracket groups -/

theorem keep_eq_ok {c : Char} {e : Except String (List Char × List Char)} {g t : List Char} :
    keep c e = .ok (g, t) ↔ ∃ g', e = .ok (g', t) ∧ g = c :: g' := by
  cases e with
  | error m => simp [keep, Except.map]
  | ok p =>
    obtain ⟨g', t'⟩ := p
    simp only [keep, Except.map, Except.ok.injEq, Prod.mk.injEq]
    constructor
    · rintro ⟨rfl, rfl⟩; exact ⟨g', ⟨rfl, rfl⟩, rfl⟩
    · rintro ⟨g'', ⟨rfl, rfl⟩, rfl⟩; exact ⟨rfl, rfl⟩

/-- A bracket group is read verbatim: it is a nonempty front of the text. -/
theorem group_eq_append {d : Nat} {q : Bool} {cs g t : List Char}
    (h : group d q cs = .ok (g, t)) : cs = g ++ t ∧ g ≠ [] := by
  fun_induction group d q cs generalizing g t with
  | case1 | case2 => simp at h
  | case7 r =>
    simp only [Except.ok.injEq, Prod.mk.injEq] at h
    obtain ⟨rfl, rfl⟩ := h
    simp
  | case3 _ r ih | case6 _ _ r _ _ _ ih | case8 _ r ih | case9 _ r ih | case10 _ r ih
  | case11 _ _ r _ _ _ _ ih =>
    obtain ⟨g', h', rfl⟩ := keep_eq_ok.1 h
    exact ⟨by rw [(ih h').1]; rfl, List.cons_ne_nil _ _⟩
  | case4 _ r ih | case5 _ r ih =>
    obtain ⟨g', h', rfl⟩ := keep_eq_ok.1 h
    obtain ⟨g'', h'', rfl⟩ := keep_eq_ok.1 h'
    exact ⟨by rw [(ih h'').1]; rfl, List.cons_ne_nil _ _⟩



private theorem append_eq_cons_of_ne_nil {g y t r : List Char} {a : Char} (hg : g ≠ [])
    (he : g ++ y = a :: r) : ∃ r', g ++ t = a :: r' := by
  match g, hg, he with
  | b :: g', _, he => exact ⟨g' ++ t, by rw [(List.cons.inj he).1]; rfl⟩

/-- Reading a bracket group looks at nothing after it: the same group is read before any
text. -/
theorem group_append {d : Nat} {q : Bool} {cs g t : List Char}
    (h : group d q cs = .ok (g, t)) (y : List Char) : group d q (g ++ y) = .ok (g, y) := by
  fun_induction group d q cs generalizing g t with
  | case1 | case2 => simp at h
  | case7 r =>
    simp only [Except.ok.injEq, Prod.mk.injEq] at h
    obtain ⟨rfl, rfl⟩ := h
    rfl
  | case3 _ r ih | case8 _ r ih | case9 _ r ih | case10 _ r ih =>
    obtain ⟨g', h', rfl⟩ := keep_eq_ok.1 h
    simp only [List.cons_append, group, ih h']
    rfl
  | case4 _ r ih | case5 _ r ih =>
    obtain ⟨g', h', rfl⟩ := keep_eq_ok.1 h
    obtain ⟨g'', h'', rfl⟩ := keep_eq_ok.1 h'
    simp only [List.cons_append, group, ih h'']
    rfl
  | case6 d c r h1 h2 h3 ih =>
    obtain ⟨g', h', rfl⟩ := keep_eq_ok.1 h
    obtain ⟨rfl, hne⟩ := group_eq_append h'
    rw [List.cons_append, group.eq_6 d c (g' ++ y) h1
      (fun _ hc he => (append_eq_cons_of_ne_nil hne he).elim fun _ hr => h2 _ hc hr)
      (fun _ hc he => (append_eq_cons_of_ne_nil hne he).elim fun _ hr => h3 _ hc hr), ih h']
    rfl
  | case11 d c r h1 h2 h3 h4 ih =>
    obtain ⟨g', h', rfl⟩ := keep_eq_ok.1 h
    rw [List.cons_append, group.eq_11 d c (g' ++ y) ‹_› ‹_› ‹_› ‹_›, ih h']
    rfl


/-! ## Symbols -/

section Symbol

variable {acc cs r : List Char}

theorem symbolRest_dot (h : (cs.dropWhile Char.isAlphanum).dropWhile isBlank = '.' :: r) :
    symbolRest acc cs = symbolRest (acc ++ cs.takeWhile Char.isAlphanum ++ ['.']) r := by
  rw [symbolRest]
  split <;> simp_all


theorem symbolRest_group {g t : List Char}
    (h : (cs.dropWhile Char.isAlphanum).dropWhile isBlank = '(' :: r)
    (hg : group 0 false r = .ok (g, t)) :
    symbolRest acc cs =
      if continuesSymbol t then symbolRest (acc ++ cs.takeWhile Char.isAlphanum ++ '(' :: g) t
      else .ok (acc ++ cs.takeWhile Char.isAlphanum ++ '(' :: g, t) := by
  rw [symbolRest]
  split
  next r' he => exact absurd (List.cons.inj (h.symm.trans he)).1 (by decide)
  next r' he =>
    obtain ⟨-, rfl⟩ := List.cons.inj (h.symm.trans he)
    split
    next m hm => rw [hg] at hm; cases hm
    next g' t' hm =>
      rw [hg] at hm
      obtain ⟨rfl, rfl⟩ := Prod.mk.inj (Except.ok.inj hm)
      rfl
  next c' r' _ hp he => exact absurd (List.cons.inj (h.symm.trans he)).1.symm hp
  next he => cases h.symm.trans he

theorem symbolRest_stop {c : Char} (h : (cs.dropWhile Char.isAlphanum).dropWhile isBlank = c :: r)
    (hc : c ≠ '.' ∧ c ≠ '(' ∧ c.isAlpha = false) :
    symbolRest acc cs = .ok (acc ++ cs.takeWhile Char.isAlphanum, c :: r) := by
  rw [symbolRest]
  split
  next r' he => exact absurd (List.cons.inj (h.symm.trans he)).1 hc.1
  next r' he => exact absurd (List.cons.inj (h.symm.trans he)).1 hc.2.1
  next c' r' _ _ he =>
    obtain ⟨rfl, rfl⟩ := List.cons.inj (h.symm.trans he)
    simp [hc.2.2]
  next he => cases h.symm.trans he

theorem symbolRest_end (h : (cs.dropWhile Char.isAlphanum).dropWhile isBlank = []) :
    symbolRest acc cs = .ok (acc ++ cs.takeWhile Char.isAlphanum, []) := by
  rw [symbolRest]
  split <;> simp_all


/-- A symbol read from `cs` starts with the run of letters and digits that `cs` starts with. -/
theorem symbolRest_eq_append {s t : List Char} (h : symbolRest acc cs = .ok (s, t)) :
    ∃ u, s = acc ++ cs.takeWhile Char.isAlphanum ++ u := by
  fun_induction symbolRest acc cs generalizing s t with
  | case1 acc cs r _ ih =>
    obtain ⟨u, rfl⟩ := ih h
    exact ⟨'.' :: (r.takeWhile Char.isAlphanum ++ u), by simp⟩
  | case2 => simp at h
  | case3 =>
    rename_i acc cs r _ g t' _ _ _ ih
    obtain ⟨u, rfl⟩ := ih h
    exact ⟨'(' :: (g ++ (t'.takeWhile Char.isAlphanum ++ u)), by simp +zetaDelta⟩
  | case4 =>
    rename_i acc cs r _ g t' _ _ _
    simp only [Except.ok.injEq, Prod.mk.injEq] at h
    exact ⟨'(' :: g, h.1.symm⟩
  | case5 acc cs c r _ _ _ _ ih =>
    obtain ⟨u, rfl⟩ := ih h
    exact ⟨c :: (r.takeWhile Char.isAlphanum ++ u), by simp⟩
  | case6 | case7 =>
    simp only [Except.ok.injEq, Prod.mk.injEq] at h
    exact ⟨[], by rw [← h.1, List.append_nil]⟩

/-- A symbol read from text that goes on with a symbol is nonempty past `acc`, and starts with
a letter or a `.`. -/
theorem symbolRest_continues {s t : List Char} (hc : continuesSymbol cs = true)
    (h : symbolRest acc cs = .ok (s, t)) : ∃ u, s = acc ++ u ∧ continuesSymbol u = true := by
  match cs, hc with
  | c :: r, hc =>
    simp only [continuesSymbol, Bool.or_eq_true, beq_iff_eq] at hc
    rcases hc with hc | rfl
    · -- a letter starts the run
      obtain ⟨u, rfl⟩ := symbolRest_eq_append h
      rw [List.takeWhile_cons_of_pos (isAlphanum_of_isAlpha hc)]
      exact ⟨c :: (r.takeWhile Char.isAlphanum ++ u), by simp, by simp [continuesSymbol, hc]⟩
    · -- the run is empty and the dot joins the next round
      have hdot : (('.' :: r).dropWhile Char.isAlphanum).dropWhile isBlank = '.' :: r := by
        rw [List.dropWhile_cons_of_neg (by decide), List.dropWhile_cons_of_neg (by decide)]
      rw [symbolRest_dot hdot, List.takeWhile_cons_of_neg (by decide)] at h
      obtain ⟨u, rfl⟩ := symbolRest_eq_append h
      exact ⟨'.' :: (r.takeWhile Char.isAlphanum ++ u), by simp, by simp [continuesSymbol]⟩

end Symbol

/-- The text of a symbol after its first letter, in the shape the scanner gives it: a run of
letters and digits, then a `.` and more of the same, or a bracket group, kept verbatim, that
ends the symbol or is followed by a letter or a `.`. -/
inductive SymbolTail : List Char → Prop
  | run {ds : List Char} : (∀ c ∈ ds, c.isAlphanum) → SymbolTail ds
  | dot {ds u : List Char} : (∀ c ∈ ds, c.isAlphanum) → SymbolTail u → SymbolTail (ds ++ '.' :: u)
  | group {ds g u : List Char} : (∀ c ∈ ds, c.isAlphanum) →
      (∀ y, group 0 false (g ++ y) = .ok (g, y)) → SymbolTail u →
      (u = [] ∨ continuesSymbol u = true) → SymbolTail (ds ++ '(' :: (g ++ u))

namespace SymbolTail

/-- Letters and digits in front of a symbol's tail join its first run. -/
theorem prepend {p u : List Char} (hp : ∀ c ∈ p, c.isAlphanum) (hu : SymbolTail u) :
    SymbolTail (p ++ u) := by
  have hrun : ∀ {ds : List Char}, (∀ c ∈ ds, c.isAlphanum) → ∀ c ∈ p ++ ds, c.isAlphanum :=
    fun hds c hc => (List.mem_append.1 hc).elim (hp c) (hds c)
  cases hu with
  | run hds => exact .run (hrun hds)
  | dot hds hu => rw [← List.append_assoc]; exact .dot (hrun hds) hu
  | group hds hg hu hc => rw [← List.append_assoc]; exact .group (hrun hds) hg hu hc

end SymbolTail

open SymbolTail in
/-- What the symbol scanner reads past `acc` has the shape of a symbol's tail. -/
theorem symbolRest_tail {acc cs s t : List Char} (h : symbolRest acc cs = .ok (s, t)) :
    ∃ u, s = acc ++ u ∧ SymbolTail u := by
  have hrun : ∀ cs : List Char, ∀ c ∈ cs.takeWhile Char.isAlphanum, c.isAlphanum :=
    fun _ _ hc => List.mem_takeWhile_imp hc
  fun_induction symbolRest acc cs generalizing s t with
  | case1 acc cs r _ ih =>
    obtain ⟨u, rfl, hu⟩ := ih h
    exact ⟨_, by simp, .dot (hrun cs) hu⟩
  | case2 => simp at h
  | case3 =>
    rename_i acc cs r _ g t' hg _ hcont ih
    obtain ⟨u, rfl, hu⟩ := ih h
    -- the group is followed by a letter or a dot, so what is read after it starts so too
    obtain ⟨u', hu', hcu⟩ := symbolRest_continues hcont h
    obtain rfl : u = u' := List.append_cancel_left hu'
    exact ⟨cs.takeWhile Char.isAlphanum ++ '(' :: (g ++ u), by simp +zetaDelta,
      .group (hrun cs) (group_append hg) hu (.inr hcu)⟩
  | case4 =>
    rename_i acc cs r _ g t' hg _ _
    simp only [Except.ok.injEq, Prod.mk.injEq] at h
    refine ⟨cs.takeWhile Char.isAlphanum ++ '(' :: (g ++ []), ?_, .group (hrun cs) (group_append hg) (.run (by simp)) (.inl rfl)⟩
    rw [← h.1]
    simp +zetaDelta
  | case5 acc cs c r _ _ _ hc ih =>
    obtain ⟨u, rfl, hu⟩ := ih h
    refine ⟨cs.takeWhile Char.isAlphanum ++ [c] ++ u, by simp, .prepend ?_ hu⟩
    intro x hx
    rcases List.mem_append.1 hx with hx | hx
    · exact hrun cs x hx
    · rw [List.mem_singleton.1 hx]
      exact isAlphanum_of_isAlpha hc
  | case6 | case7 =>
    simp only [Except.ok.injEq, Prod.mk.injEq] at h
    exact ⟨_, h.1.symm, .run (hrun _)⟩

theorem ofWord_eq_symbol {w n : String} (h : ofWord w = .symbol n) : n = w := by
  unfold ofWord at h
  split_ifs at h
  exact (Token.symbol.inj h).symm

theorem ofWord_isFinal (w : String) : (ofWord w).isFinal = false := by
  unfold ofWord
  split_ifs <;> rfl

theorem doubled_ne_symbol (c : Char) (o : Operator) (r : List Char) (n : String) :
    (doubled c o r).1 ≠ .symbol n := by
  unfold doubled
  split
  · split <;> simp
  · simp

theorem withEq_ne_symbol (a b : Operator) (r : List Char) (n : String) :
    (withEq a b r).1 ≠ .symbol n := by
  unfold withEq
  split <;> simp

/-- A symbol token is read by the symbol scanner from a letter. -/
theorem scanAt_eq_symbol {c : Char} {r : List Char} {n : String} (h : (scanAt c r).1 = .symbol n) :
    c.isAlpha = true ∧ ∃ s t, symbolRest [c] r = .ok (s, t) ∧ ofWord (String.ofList s) = .symbol n := by
  unfold scanAt at h
  split at h
  case h_15 =>
    split at h <;> simp at h
  case h_16 =>
    split at h
    · simp only [numberToken] at h
      split at h <;> simp at h
    · split at h
      · rename_i ha
        refine ⟨ha, ?_⟩
        split at h
        · exact ⟨_, _, by assumption, h⟩
        · simp at h
      · simp at h
  case h_9 | h_10 | h_11 => exact absurd h (doubled_ne_symbol _ _ _ _)
  case h_12 | h_13 | h_14 => exact absurd h (withEq_ne_symbol _ _ _ _)
  all_goals simp at h


/-- A name that the scanner reads as a symbol: a letter, then the tail of a symbol, and not
one of the words `true` and `false`. -/
def SymbolName (name : String) : Prop :=
  ∃ c u, name.toList = c :: u ∧ c.isAlpha = true ∧ SymbolTail u ∧ ofWord name = .symbol name

/-- Every symbol the scanner reads has a symbol's name. -/
theorem symbolName_of_scan {cs : List Char} {name : String} (h : (scan cs).1 = .symbol name) :
    SymbolName name := by
  unfold scan at h
  split at h
  · cases h
  · rename_i c r _
    obtain ⟨hc, s, t, hs, hw⟩ := scanAt_eq_symbol h
    obtain ⟨u, rfl, hu⟩ := symbolRest_tail hs
    obtain rfl := ofWord_eq_symbol hw
    exact ⟨c, u, by simp, hc, hu, hw⟩


/-! ## What follows a part of a printed tree -/

theorem spelling_toList (o : Operator) : ∃ c s, o.spelling.toList = c :: s ∧ isBlank c = false ∧
    c ≠ '.' ∧ c ≠ '(' ∧ c.isAlpha = false := by
  cases o <;> exact ⟨_, _, rfl, by decide, by decide, by decide, by decide⟩

/-- What the printed form of a tree puts right after a part of it: nothing, a closing bracket,
or a blank and an operator. -/
inductive Follows : List Char → Prop
  | stop : Follows []
  | close (r : List Char) : Follows (')' :: r)
  | op (o : Operator) (r : List Char) : Follows (' ' :: (o.spelling.toList ++ r))

namespace Follows

variable {r : List Char}

theorem head (h : Follows r) : ∀ c ∈ r.head?, c = ')' ∨ c = ' ' := by
  cases h <;> simp

theorem alphanum (h : Follows r) :
    r.takeWhile Char.isAlphanum = [] ∧ r.dropWhile Char.isAlphanum = r := by
  cases h <;> exact ⟨rfl, rfl⟩

theorem continuesSymbol_eq_false (h : Follows r) : continuesSymbol r = false := by
  cases h <;> rfl

/-- Past its blanks, what follows a part of a printed tree ends a symbol. -/
theorem dropWhile_blank (h : Follows r) : r.dropWhile isBlank = [] ∨ ∃ c r',
    r.dropWhile isBlank = c :: r' ∧ isBlank c = false ∧ c ≠ '.' ∧ c ≠ '(' ∧ c.isAlpha = false := by
  cases h with
  | stop => exact .inl rfl
  | close r => exact .inr ⟨')', r, rfl, by decide, by decide, by decide, by decide⟩
  | op o r =>
    obtain ⟨c, s, hs, hc⟩ := spelling_toList o
    refine .inr ⟨c, s ++ r, ?_, hc⟩
    rw [hs, List.dropWhile_cons_of_pos (by decide), List.cons_append,
      List.dropWhile_cons_of_neg (by simp [hc.1])]

end Follows

theorem continuesSymbol_append {u : List Char} (h : continuesSymbol u = true) (r : List Char) :
    continuesSymbol (u ++ r) = true := by
  match u, h with
  | _ :: _, h => exact h

/-- A symbol's tail, followed by what the printed form puts after it, reads back whole. -/
theorem symbolRest_of_tail {u r : List Char} (hu : SymbolTail u) (hr : Follows r)
    (acc : List Char) : ∃ r', symbolRest acc (u ++ r) = .ok (acc ++ u, r') ∧
      r'.dropWhile isBlank = r.dropWhile isBlank := by
  induction hu generalizing acc with
  | @run ds hds =>
    have ht : (ds ++ r).takeWhile Char.isAlphanum = ds := by
      rw [List.takeWhile_append_of_pos hds, hr.alphanum.1, List.append_nil]
    have hd : (ds ++ r).dropWhile Char.isAlphanum = r := by
      rw [List.dropWhile_append_of_pos hds, hr.alphanum.2]
    rcases hr.dropWhile_blank with he | ⟨c, r', he, hb, hc⟩
    · refine ⟨[], ?_, he.symm⟩
      rw [symbolRest_end (by rw [hd, he]), ht]
    · refine ⟨c :: r', ?_, ?_⟩
      · rw [symbolRest_stop (by rw [hd, he]) hc, ht]
      · rw [he, List.dropWhile_cons_of_neg (by simp [hb])]
  | @dot ds u hds _ ih =>
    have ht : (ds ++ '.' :: (u ++ r)).takeWhile Char.isAlphanum = ds := by
      rw [List.takeWhile_append_of_pos hds, List.takeWhile_cons_of_neg (by decide),
        List.append_nil]
    have hd : ((ds ++ '.' :: (u ++ r)).dropWhile Char.isAlphanum).dropWhile isBlank =
        '.' :: (u ++ r) := by
      rw [List.dropWhile_append_of_pos hds, List.dropWhile_cons_of_neg (by decide),
        List.dropWhile_cons_of_neg (by decide)]
    obtain ⟨r', h', hr'⟩ := ih (acc ++ ds ++ ['.'])
    refine ⟨r', ?_, hr'⟩
    rw [List.append_assoc, List.cons_append, symbolRest_dot hd, ht, h']
    simp
  | @group ds g u hds hg _ hc ih =>
    have ht : (ds ++ '(' :: (g ++ (u ++ r))).takeWhile Char.isAlphanum = ds := by
      rw [List.takeWhile_append_of_pos hds, List.takeWhile_cons_of_neg (by decide),
        List.append_nil]
    have hd : ((ds ++ '(' :: (g ++ (u ++ r))).dropWhile Char.isAlphanum).dropWhile isBlank =
        '(' :: (g ++ (u ++ r)) := by
      rw [List.dropWhile_append_of_pos hds, List.dropWhile_cons_of_neg (by decide),
        List.dropWhile_cons_of_neg (by decide)]
    rw [List.append_assoc, List.cons_append, List.append_assoc, symbolRest_group hd (hg _), ht]
    rcases hc with rfl | hc
    · -- the group ends the symbol
      rw [List.nil_append, if_neg (by simp [hr.continuesSymbol_eq_false])]
      exact ⟨r, by simp, rfl⟩
    · rw [if_pos (continuesSymbol_append hc r)]
      obtain ⟨r', h', hr'⟩ := ih (acc ++ ds ++ '(' :: g)
      exact ⟨r', by rw [h']; simp, hr'⟩

end Token

namespace Lexeme

open Text (isBlank)

theorem map_token_scanFrom (cs : List Char) (p q : Nat) :
    (scanFrom cs p).map token = (scanFrom cs q).map token := by
  fun_induction scanFrom cs p generalizing q with
  | case1 cs p step stop l h =>
    conv_rhs => rw [scanFrom]
    rw [dif_pos h]; rfl
  | case2 cs p step stop l h ih =>
    conv_rhs => rw [scanFrom]
    rw [dif_neg (by simpa using h)]
    simp only [List.map_cons]
    exact congrArg _ (ih _)

/-- The tokens of a text, up to and including its first final token. -/
def tokens (cs : List Char) : List Token :=
  (scanFrom cs 0).map token

theorem map_token_ofText (s : String) : (ofText s).map token = tokens s.toList := rfl

theorem tokens_of_final {cs r : List Char} {tk : Token} (h : Token.scan cs = (tk, r))
    (hf : tk.isFinal = true) : tokens cs = [tk] := by
  unfold tokens
  rw [scanFrom, dif_pos (by simp [h, hf])]
  simp [h]

theorem tokens_of_scan {cs r : List Char} {tk : Token} (h : Token.scan cs = (tk, r))
    (hf : tk.isFinal = false) : tokens cs = tk :: tokens r := by
  unfold tokens
  rw [scanFrom, dif_neg (by simp [h, hf]), List.map_cons, map_token_scanFrom _ _ 0]
  simp [h]

/-- The tokens of a text depend on its first token and what follows it only. -/
theorem tokens_congr {cs cs' : List Char} (h : Token.scan cs = Token.scan cs') :
    tokens cs = tokens cs' := by
  rcases hs : Token.scan cs with ⟨tk, r⟩
  have hs' : Token.scan cs' = (tk, r) := h ▸ hs
  cases hf : tk.isFinal
  · rw [tokens_of_scan hs hf, tokens_of_scan hs' hf]
  · rw [tokens_of_final hs hf, tokens_of_final hs' hf]

/-- Blanks in front of a text add no token. -/
theorem tokens_dropWhile_blank (cs : List Char) : tokens (cs.dropWhile isBlank) = tokens cs :=
  tokens_congr (Token.scan_dropWhile_blank cs)

/-- Every symbol among the tokens of a text has a symbol's name. -/
theorem symbolName_of_mem_tokens {cs : List Char} {name : String}
    (h : Token.symbol name ∈ tokens cs) : Token.SymbolName name := by
  unfold tokens at h
  generalize 0 = pos at h
  fun_induction scanFrom cs pos with
  | case1 cs p step stop l hf =>
    simp only [List.map_cons, List.map_nil, List.mem_singleton] at h
    exact Token.symbolName_of_scan h.symm
  | case2 cs p step stop l hf ih =>
    rcases List.mem_cons.1 h with h | h
    · exact Token.symbolName_of_scan h.symm
    · exact ih h


/-! ## The tokens of printed parts -/

theorem tokens_nil : tokens [] = [.endOfText] :=
  tokens_of_final rfl rfl

theorem tokens_blank (r : List Char) : tokens (' ' :: r) = tokens r := by
  rw [← tokens_dropWhile_blank (' ' :: r), List.dropWhile_cons_of_pos (by decide),
    tokens_dropWhile_blank]

theorem tokens_openParen (r : List Char) : tokens ('(' :: r) = .openParen :: tokens r :=
  tokens_of_scan rfl rfl

theorem tokens_closeParen (r : List Char) : tokens (')' :: r) = .closeParen :: tokens r :=
  tokens_of_scan rfl rfl

/-- A letter and a symbol's tail, before what follows a printed part, is one word. -/
theorem tokens_word {c : Char} {u r : List Char} (hc : c.isAlpha = true)
    (hu : Token.SymbolTail u) (hr : Token.Follows r) :
    tokens ((c :: u) ++ r) = Token.ofWord (String.ofList (c :: u)) :: tokens r := by
  obtain ⟨r', hs, hr'⟩ := Token.symbolRest_of_tail hu hr [c]
  have hscan : Token.scan ((c :: u) ++ r) = (Token.ofWord (String.ofList (c :: u)), r') := by
    rw [List.cons_append,
      Token.scan_cons (Token.isBlank_eq_false (Token.isAlphanum_of_isAlpha hc)),
      Token.scanAt_of_isAlpha _ hc, hs]
    rfl
  rw [tokens_of_scan hscan (Token.ofWord_isFinal _), ← tokens_dropWhile_blank r', hr',
    tokens_dropWhile_blank]

theorem tokens_symbol {name : String} {r : List Char} (hn : Token.SymbolName name)
    (hr : Token.Follows r) : tokens (name.toList ++ r) = .symbol name :: tokens r := by
  obtain ⟨c, u, hcu, hc, hu, hw⟩ := hn
  rw [hcu, tokens_word hc hu hr, ← hcu, String.ofList_toList, hw]

theorem tokens_boolean (b : Bool) {r : List Char} (hr : Token.Follows r) :
    tokens ((toString b).toList ++ r) = .boolean b :: tokens r := by
  cases b
  · rw [show (toString false).toList = 'f' :: ['a', 'l', 's', 'e'] from rfl,
      tokens_word (by decide) (.run (List.all_eq_true.1 rfl)) hr]
    rfl
  · rw [show (toString true).toList = 't' :: ['r', 'u', 'e'] from rfl,
      tokens_word (by decide) (.run (List.all_eq_true.1 rfl)) hr]
    rfl

theorem tokens_quoteLiteral (s : String) (r : List Char) :
    tokens ((Tree.quoteLiteral s).toList ++ r) = .string s :: tokens r :=
  tokens_of_scan (Token.scan_quoteLiteral s r) rfl

theorem tokens_plain {d r : List Char} {x : Float} (hd : Number.PlainDecimal d)
    (hx : Number.read? (String.ofList d) = some x) (hr : Token.Follows r) :
    tokens (d ++ r) = .number x :: tokens r :=
  tokens_of_scan (Token.scan_plain hd hx hr.head) rfl

/-- An operator between blanks is one token. -/
theorem tokens_op (o : Operator) (r : List Char) :
    tokens (o.spelling.toList ++ ' ' :: r) = .op o :: tokens r := by
  have hs : Token.scan (o.spelling.toList ++ ' ' :: r) = (.op o, ' ' :: r) := by
    cases o <;> rfl
  rw [tokens_of_scan hs rfl, tokens_blank]

/-- A prefix `-` or `!` is one token before anything that does not start with `=`. -/
theorem tokens_prefix {o : Operator} {c : Char} {r : List Char}
    (ho : o = .minus ∨ o = .logicalNot) (hc : c ≠ '=') :
    tokens (o.spelling.toList ++ c :: r) = .op o :: tokens (c :: r) := by
  rcases ho with rfl | rfl
  · exact tokens_of_scan rfl rfl
  · refine tokens_of_scan ?_ rfl
    show Token.withEq .logicalNot .ne (c :: r) = _
    rw [Token.withEq.eq_2 _ _ _ (fun _ h => hc (List.cons.inj h).1)]

end Lexeme

end ExprLang
