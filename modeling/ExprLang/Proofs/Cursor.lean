import Mathlib
import ExprLang.Proofs.Scanning

/-!
# The scanner's cursor

A scan reads one token from the front of a text and leaves the text after it. A caller may
scan again and again, also after the end or an invalid token: `Token.restAfter cs n` is the
text left after `n` successive scans of `cs`, and `Token.cursor s n` the byte offset in `s`
where that text starts. The cursor is always safe to cut at and always moves:

> after any number of scans the text left is `s` less some whole characters, so the cursor
> is a character boundary of `s` (`cursor_isValid`), at most its size (`cursor_le`); a scan
> that gives any token but the end moves the cursor by at least one byte (`cursor_lt_succ`);
> once a scan gives the end, every later scan gives the end and leaves the cursor where it is
> (`cursor_of_endOfText`); so the scan that starts after `s.utf8ByteSize` scans gives the end
> at the latest (`scan_restAfter_of_le`).

The lexer over bytes has the same cursor (`ExprLang.Proofs.ByteCursor`), and these are the
facts its main statement is assembled from.

The step lemma is `scan_suffix`: a scan leaves a suffix of its text, shorter unless the token
is the end (`scan_length_lt`), and the end comes exactly from a text of blanks, leaving nothing
(`scan_eq_endOfText_iff`, `scan_rest_of_endOfText`). It rests on one suffix lemma per
scanning helper, the error exits of quoted strings and bracket groups included: they leave
nothing at all. The run lemma `restAfter_suffix` follows by induction on the number of scans.

Byte offsets are counted by `String.utf8Len`, which `Lexeme.byteSize` is
(`byteSize_eq_utf8Len`). A suffix that is shorter in characters is smaller in bytes, since
every character takes at least one byte.

The lexemes of a whole text, which the reader consumes, are these scans
(`Lexeme.getElem_ofText`): the `i`-th lexeme is the scan that starts after `i` scans, and its
offsets are the cursor before and after it. The reader recurses on the lexemes it has not
consumed, so it ends on every text.
-/
namespace ExprLang

namespace Lexeme

theorem byteSize_eq_utf8Len (cs : List Char) : byteSize cs = String.utf8Len cs := by
  induction cs with
  | nil => rfl
  | cons c cs ih => simp only [byteSize, List.foldr_cons] at *; rw [ih, String.utf8Len_cons]; omega

/-- A suffix with fewer characters has fewer bytes. -/
theorem byteSize_lt_of_suffix {r cs : List Char} (h : r <:+ cs) (hl : r.length < cs.length) :
    byteSize r < byteSize cs := by
  obtain ⟨p, rfl⟩ := h
  have hp : p ≠ [] := by rintro rfl; simp at hl
  have hpos : 0 < String.utf8Len p := Nat.pos_of_ne_zero (by simpa using hp)
  rw [byteSize_eq_utf8Len, byteSize_eq_utf8Len, String.utf8Len_append]
  omega

/-- A suffix is what is left after some whole characters, and the bytes before it are theirs. -/
theorem byteSize_sub_of_suffix {r cs : List Char} (h : r <:+ cs) :
    ∃ k, r = cs.drop k ∧ byteSize cs - byteSize r = byteSize (cs.take k) := by
  obtain ⟨p, rfl⟩ := h
  refine ⟨p.length, by simp, ?_⟩
  rw [List.take_left' rfl, byteSize_eq_utf8Len, byteSize_eq_utf8Len, byteSize_eq_utf8Len,
    String.utf8Len_append]
  omega

end Lexeme

namespace Token

open Text (isBlank)

/-! ## Each scanning helper leaves a suffix of its text -/

theorem quotedBody_suffix {cs b t : List Char} (h : quotedBody cs = some (b, t)) : t <:+ cs := by
  fun_induction quotedBody cs generalizing b t with
  | case1 => simp at h
  | case2 r =>
    simp only [Option.some.injEq, Prod.mk.injEq] at h
    obtain ⟨-, rfl⟩ := h
    exact List.suffix_cons _ _
  | case3 r ih | case4 r ih =>
    obtain ⟨⟨b', t'⟩, h', he⟩ := Option.map_eq_some_iff.1 h
    simp only [Prod.mk.injEq] at he
    obtain ⟨-, rfl⟩ := he
    exact (ih h').trans (List.suffix_append [_, _] r)
  | case5 c r _ _ _ ih =>
    obtain ⟨⟨b', t'⟩, h', he⟩ := Option.map_eq_some_iff.1 h
    simp only [Prod.mk.injEq] at he
    obtain ⟨-, rfl⟩ := he
    exact (ih h').trans (List.suffix_cons c r)

theorem group_suffix {d : Nat} {q : Bool} {cs g t : List Char}
    (h : group d q cs = .ok (g, t)) : t <:+ cs :=
  ⟨g, (group_eq_append h).1.symm⟩

/-- What is left after a run of letters and digits and the blanks after it. -/
theorem afterRun_suffix (cs : List Char) :
    (cs.dropWhile Char.isAlphanum).dropWhile isBlank <:+ cs :=
  (List.dropWhile_suffix _).trans (List.dropWhile_suffix _)

theorem tail_suffix_of_afterRun {cs r : List Char} {c : Char}
    (h : (cs.dropWhile Char.isAlphanum).dropWhile isBlank = c :: r) : r <:+ cs :=
  (List.suffix_cons c r).trans (h ▸ afterRun_suffix cs)

theorem symbolRest_suffix {acc cs s t : List Char} (h : symbolRest acc cs = .ok (s, t)) :
    t <:+ cs := by
  fun_induction symbolRest acc cs generalizing s t with
  | case1 _ cs r hr ih => exact (ih h).trans (tail_suffix_of_afterRun hr)
  | case2 => simp at h
  | case3 =>
    rename_i cs r hr g t' hg _ _ ih
    exact ((ih h).trans (group_suffix hg)).trans (tail_suffix_of_afterRun hr)
  | case4 =>
    rename_i cs r hr g t' hg _ _
    simp only [Except.ok.injEq, Prod.mk.injEq] at h
    obtain ⟨-, rfl⟩ := h
    exact (group_suffix hg).trans (tail_suffix_of_afterRun hr)
  | case5 _ cs c r _ _ hr _ ih => exact (ih h).trans (tail_suffix_of_afterRun hr)
  | case6 _ cs c r _ _ hr _ =>
    simp only [Except.ok.injEq, Prod.mk.injEq] at h
    obtain ⟨-, rfl⟩ := h
    exact hr ▸ afterRun_suffix cs
  | case7 =>
    simp only [Except.ok.injEq, Prod.mk.injEq] at h
    obtain ⟨-, rfl⟩ := h
    exact List.nil_suffix

theorem signPart_suffix (cs : List Char) : (signPart cs).2 <:+ cs := by
  unfold signPart
  split
  · split
    · exact List.suffix_cons _ _
    · exact List.suffix_refl _
  · exact List.suffix_refl _

theorem fractionPart_suffix (cs : List Char) : (fractionPart cs).2 <:+ cs := by
  unfold fractionPart
  split
  · exact (List.dropWhile_suffix _).trans (List.suffix_cons _ _)
  · exact List.suffix_refl _

theorem exponentPart_suffix (cs : List Char) : (exponentPart cs).2 <:+ cs := by
  unfold exponentPart
  split
  · rename_i c r
    split
    · exact ((List.dropWhile_suffix _).trans (signPart_suffix r)).trans (List.suffix_cons c r)
    · exact List.suffix_refl _
  · exact List.suffix_refl _

/-- A number's text starts with its digits: what is left is a suffix of the text after them. -/
theorem numberText_suffix (cs : List Char) :
    (numberText cs).2 <:+ cs.dropWhile Char.isDigit :=
  (exponentPart_suffix _).trans (fractionPart_suffix _)

theorem doubled_suffix (c : Char) (o : Operator) (r : List Char) : (doubled c o r).2 <:+ r := by
  unfold doubled
  split
  · split
    · exact List.suffix_cons _ _
    · exact List.suffix_refl _
  · exact List.suffix_refl _

theorem withEq_suffix (a b : Operator) (r : List Char) : (withEq a b r).2 <:+ r := by
  unfold withEq
  split
  · exact List.suffix_cons _ _
  · exact List.suffix_refl _

theorem scanAt_suffix (c : Char) (r : List Char) : (scanAt c r).2 <:+ r := by
  unfold scanAt
  split
  case h_15 =>
    split
    · rename_i b t h; exact quotedBody_suffix h
    · exact List.nil_suffix
  case h_16 =>
    split
    · rename_i hc
      exact (numberText_suffix (c :: r)).trans
        (by rw [List.dropWhile_cons_of_pos hc]; exact List.dropWhile_suffix _)
    · split
      · split
        · rename_i s t h; exact symbolRest_suffix h
        · exact List.nil_suffix
      · exact List.suffix_refl _
  all_goals simp [doubled_suffix, withEq_suffix]

/-! ## One scan -/

theorem doubled_ne_endOfText (c : Char) (o : Operator) (r : List Char) :
    (doubled c o r).1 ≠ .endOfText := by
  unfold doubled
  split
  · split <;> simp
  · simp

theorem withEq_ne_endOfText (a b : Operator) (r : List Char) : (withEq a b r).1 ≠ .endOfText := by
  unfold withEq
  split <;> simp

/-- Only the end of the text is scanned as the end: every token that starts with a character
is something else, an invalid token at worst. -/
theorem scanAt_ne_endOfText (c : Char) (r : List Char) : (scanAt c r).1 ≠ .endOfText := by
  unfold scanAt
  split
  case h_15 => split <;> simp
  case h_16 =>
    split
    · simp only [numberToken]; split <;> simp
    · split
      · split
        · simp only [ofWord]; split_ifs <;> simp
        · simp
      · simp
  case h_9 | h_10 | h_11 => exact doubled_ne_endOfText _ _ _
  case h_12 | h_13 | h_14 => exact withEq_ne_endOfText _ _ _
  all_goals simp

/-- A scan leaves a suffix of its text. -/
theorem scan_suffix (cs : List Char) : (scan cs).2 <:+ cs := by
  unfold scan
  split
  · exact List.nil_suffix
  · rename_i c r hc
    exact (scanAt_suffix c r).trans ((List.suffix_cons c r).trans (hc ▸ List.dropWhile_suffix _))

/-- A scan gives the end exactly on a text of blanks. -/
theorem scan_eq_endOfText_iff (cs : List Char) :
    (scan cs).1 = .endOfText ↔ ∀ c ∈ cs, isBlank c = true := by
  rw [← List.dropWhile_eq_nil_iff]
  unfold scan
  split
  · simp [*]
  · rename_i c r hc
    simp only [hc, reduceCtorEq, iff_false]
    exact scanAt_ne_endOfText c r

/-- The end leaves nothing to scan. -/
theorem scan_rest_of_endOfText {cs : List Char} (h : (scan cs).1 = .endOfText) :
    (scan cs).2 = [] := by
  have hb := (scan_eq_endOfText_iff cs).1 h
  unfold scan
  rw [List.dropWhile_eq_nil_iff.2 hb]

/-- Every token but the end consumes text. -/
theorem scan_length_lt {cs : List Char} (h : (scan cs).1 ≠ .endOfText) :
    (scan cs).2.length < cs.length := by
  have hb := (List.dropWhile_suffix isBlank (l := cs)).length_le
  unfold scan at *
  split at *
  · exact absurd rfl h
  · rename_i c r hc
    have := (scanAt_suffix c r).length_le
    rw [hc, List.length_cons] at hb
    omega

/-! ## Successive scans -/

/-- The text left after `n` successive scans of `cs`. -/
def restAfter (cs : List Char) : Nat → List Char
  | 0 => cs
  | n + 1 => (scan (restAfter cs n)).2

/-- The cursor in `s` after `n` scans: the byte offset where the text left starts. -/
def cursor (s : String) (n : Nat) : Nat :=
  s.utf8ByteSize - Lexeme.byteSize (restAfter s.toList n)

theorem restAfter_suffix (cs : List Char) (n : Nat) : restAfter cs n <:+ cs := by
  induction n with
  | zero => exact List.suffix_refl cs
  | succ n ih => exact (scan_suffix _).trans ih

/-- After a scan that gives the end, nothing is left to scan, however often one goes on. -/
theorem restAfter_eq_nil {cs : List Char} {n : Nat} (h : (scan (restAfter cs n)).1 = .endOfText)
    {m : Nat} (hm : n < m) : restAfter cs m = [] := by
  induction m with
  | zero => omega
  | succ m ih =>
    rcases Nat.lt_succ_iff_lt_or_eq.1 hm with hm | rfl
    · rw [restAfter, ih hm]; rfl
    · exact scan_rest_of_endOfText h

theorem utf8ByteSize_eq_byteSize (s : String) : s.utf8ByteSize = Lexeme.byteSize s.toList := by
  rw [Lexeme.byteSize_eq_utf8Len, ← String.utf8ByteSize_ofList, String.ofList_toList]

/-- The text left never has more bytes than the text. -/
theorem byteSize_restAfter_le (s : String) (n : Nat) :
    Lexeme.byteSize (restAfter s.toList n) ≤ s.utf8ByteSize := by
  rw [utf8ByteSize_eq_byteSize, Lexeme.byteSize_eq_utf8Len, Lexeme.byteSize_eq_utf8Len]
  exact String.utf8Len_le_of_suffix (restAfter_suffix _ n)

/-- The cursor stands after some whole characters of the text, and the text left is the rest. -/
theorem cursor_eq_take (s : String) (n : Nat) :
    ∃ k, restAfter s.toList n = s.toList.drop k ∧
      cursor s n = (String.ofList (s.toList.take k)).utf8ByteSize := by
  obtain ⟨k, hr, hk⟩ := Lexeme.byteSize_sub_of_suffix (restAfter_suffix s.toList n)
  refine ⟨k, hr, ?_⟩
  rw [cursor, utf8ByteSize_eq_byteSize, hk, Lexeme.byteSize_eq_utf8Len, String.utf8ByteSize_ofList]

/-- The cursor is a character boundary of the text. -/
theorem cursor_isValid (s : String) (n : Nat) : String.Pos.Raw.IsValid s ⟨cursor s n⟩ := by
  obtain ⟨k, -, hk⟩ := cursor_eq_take s n
  exact String.Pos.Raw.isValid_iff_exists_take_toList.2 ⟨k, hk⟩

/-- A scan that gives any token but the end moves the cursor by at least one byte. -/
theorem cursor_lt_succ {s : String} {n : Nat} (h : (scan (restAfter s.toList n)).1 ≠ .endOfText) :
    cursor s n < cursor s (n + 1) := by
  have hlt := Lexeme.byteSize_lt_of_suffix (scan_suffix _) (scan_length_lt h)
  have hle := byteSize_restAfter_le s n
  simp only [cursor, restAfter] at hlt ⊢
  omega

/-- Once a scan gives the end, every later scan gives the end and the cursor stays. -/
theorem cursor_of_endOfText {s : String} {n : Nat}
    (h : (scan (restAfter s.toList n)).1 = .endOfText) {m : Nat} (hm : n < m) :
    (scan (restAfter s.toList m)).1 = .endOfText ∧ cursor s (m + 1) = cursor s m := by
  have hnil := restAfter_eq_nil h hm
  have hnil' := restAfter_eq_nil h (Nat.lt_succ_of_lt hm)
  refine ⟨(scan_eq_endOfText_iff _).2 (by simp [hnil]), ?_⟩
  rw [cursor, cursor, hnil, hnil']

/-- The cursor passes the end of the text after as many scans as the text has bytes. -/
theorem cursor_ge {s : String} {n : Nat} (h : ∀ i < n, (scan (restAfter s.toList i)).1 ≠ .endOfText) :
    n ≤ cursor s n := by
  induction n with
  | zero => exact Nat.zero_le _
  | succ n ih =>
    have := cursor_lt_succ (h n (Nat.lt_succ_self n))
    have := ih fun i hi => h i (Nat.lt_succ_of_lt hi)
    omega

theorem cursor_le (s : String) (n : Nat) : cursor s n ≤ s.utf8ByteSize :=
  Nat.sub_le _ _

/-- At the latest the scan after as many scans as the text has bytes gives the end. -/
theorem scan_restAfter_of_le {s : String} {n : Nat} (hn : s.utf8ByteSize ≤ n) :
    (scan (restAfter s.toList n)).1 = .endOfText := by
  by_contra hne
  -- no scan so far gave the end, or this one would too
  have hall : ∀ i < n + 1, (scan (restAfter s.toList i)).1 ≠ .endOfText := by
    intro i hi he
    rcases Nat.lt_succ_iff_lt_or_eq.1 hi with hi | rfl
    · exact hne (cursor_of_endOfText he hi).1
    · exact hne he
  have := cursor_ge hall
  have := cursor_le s (n + 1)
  omega

-- A single `&` is invalid after one byte; the two-byte `é` after it is invalid as a whole.
example : Token.cursor "&é" 1 = 1 ∧ Token.cursor "&é" 2 = 3 := by decide

/-- A scan moves the cursor by the bytes of the text it consumes. -/
theorem cursor_succ (s : String) (j : Nat) :
    cursor s j + Lexeme.byteSize ((restAfter s.toList j).take
      ((restAfter s.toList j).length - (scan (restAfter s.toList j)).2.length)) =
      cursor s (j + 1) := by
  have hs : (scan (restAfter s.toList j)).2 <:+ restAfter s.toList j := scan_suffix _
  have hsplit := List.take_append_drop
    ((restAfter s.toList j).length - (scan (restAfter s.toList j)).2.length) (restAfter s.toList j)
  rw [← List.suffix_iff_eq_drop.1 hs] at hsplit
  have hbytes := congrArg Lexeme.byteSize hsplit
  have hle := byteSize_restAfter_le s j
  rw [Lexeme.byteSize_eq_utf8Len, String.utf8Len_append, ← Lexeme.byteSize_eq_utf8Len,
    ← Lexeme.byteSize_eq_utf8Len] at hbytes
  simp only [cursor, restAfter]
  omega

end Token

namespace Lexeme

/-- The lexeme of the scan that starts after `i` scans of `s`. -/
def scanned (s : String) (i : Nat) : Lexeme :=
  ⟨(Token.scan (Token.restAfter s.toList i)).1, Token.cursor s i, Token.cursor s (i + 1),
    Token.restAfter s.toList i, Token.restAfter s.toList (i + 1)⟩

theorem getElem_scanFrom (s : String) {cs : List Char} {pos j : Nat}
    (hcs : cs = Token.restAfter s.toList j) (hpos : pos = Token.cursor s j) {i : Nat}
    (hi : i < (scanFrom cs pos).length) : (scanFrom cs pos)[i] = scanned s (j + i) := by
  fun_induction scanFrom cs pos generalizing j i with
  | case1 cs pos step stop l =>
    obtain rfl : i = 0 := by simpa using hi
    subst hcs hpos
    simp only [List.getElem_singleton, Nat.add_zero, l, stop, step, Token.cursor_succ]
    rfl
  | case2 cs pos step stop l _ =>
    rename_i ih
    subst hcs hpos
    cases i with
    | zero =>
      simp only [List.getElem_cons_zero, Nat.add_zero, l, stop, step, Token.cursor_succ]
      rfl
    | succ i =>
      rw [List.getElem_cons_succ, ih (j := j + 1) rfl (Token.cursor_succ s j),
        show j + 1 + i = j + (i + 1) by omega]

/-- The lexemes of a text are its successive scans: the `i`-th is the scan that starts after
`i` scans, and it stands between the cursor before and after that scan. -/
theorem getElem_ofText (s : String) {i : Nat} (hi : i < (ofText s).length) :
    (ofText s)[i] = scanned s i := by
  have h0 : Token.cursor s 0 = 0 := by
    simp [Token.cursor, Token.restAfter, Token.utf8ByteSize_eq_byteSize]
  have := getElem_scanFrom s (j := 0) rfl h0.symm hi
  rwa [Nat.zero_add] at this

end Lexeme

end ExprLang
