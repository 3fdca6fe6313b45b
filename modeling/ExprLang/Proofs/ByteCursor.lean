import Mathlib
import ExprLang.Lexer
import ExprLang.Proofs.Cursor
import ExprLang.Proofs.Brackets

/-!
# The lexer over bytes reads the scanner's tokens and never panics

`Lexer.nextToken` reads the UTF-8 bytes of a text from a byte cursor; `Token.scan` reads its
characters. The two agree from every cursor the lexer reaches (`nextToken_offsetOf`): where
`cs` is what is left of the text and `offsetOf s cs` the byte offset where it starts, the lexer
reads the token that the scanner reads from `cs` and moves to the offset of what the scan
leaves. Every cut it makes on the way is between such offsets, which are character boundaries
(`isCharBoundary_offsetOf`, `slice_offsetOf`), so no cut panics. The main statement,
`nextToken_progress`, carries this along any number of calls on a new lexer and adds what the
scanner's cursor does (`ExprLang.Proofs.Cursor`):

> after every call the cursor is at most the size of the text and a character boundary; the
> next call and the word at the cursor are read without a panic, and the token is the
> scanner's; a call that gives any token but the end moves the cursor; after the end every
> call gives the end and leaves the cursor; and the call after as many calls as the text has
> bytes gives the end.

Two facts of UTF-8 carry the proof: an ASCII character is the one byte of its code, and every
byte of any other character is at least `0x80`, its first byte at least `0xC0`. So a byte test
for an ASCII class is that class's test on the character (`class_firstByte`, `firstByte_beq`),
and a loop that stops only at ASCII bytes passes over the other characters whole
(`quotedLoop_skip`, `bracketLoop_skip`). Each loop of the lexer then computes what the matching
scanning function computes, by an induction that follows the scanning function:
`skipWhile_offsetOf`, `numberEnd_numberText`, `quotedLoop_offsetOf` (with the text not yet
copied as a second index), `bracketLoop_offsetOf`, and `symbolLoop_offsetOf` over one lemma
per way a round of a symbol ends.
-/

namespace ExprLang

namespace Lexer

open Text (isBlank firstWord)
open Token (quotedBody group signPart fractionPart exponentPart numberText)

/-! ## Characters and their bytes -/

/-- The first byte of a character's encoding. -/
def firstByte (c : Char) : UInt8 :=
  (String.utf8EncodeChar c).headD 0

theorem utf8EncodeChar_eq_cons (c : Char) :
    String.utf8EncodeChar c = firstByte c :: (String.utf8EncodeChar c).tail := by
  cases h : String.utf8EncodeChar c with
  | nil => exact absurd h String.utf8EncodeChar_ne_nil
  | cons b t => simp [firstByte, h]

theorem toNat_toUInt8 {c : Char} (h : c.toNat < 128) : c.toUInt8.toNat = c.toNat := by
  rw [← Char.toUInt8_val]
  simp only [UInt32.toNat_toUInt8, Char.toNat] at *
  omega

theorem utf8Size_of_lt {c : Char} (h : c.toNat < 128) : c.utf8Size = 1 := by
  have h' : c.val.toNat < 128 := h
  exact Char.utf8Size_eq_one_iff.2 (UInt32.le_iff_toNat_le.2 (by simp only [UInt32.reduceToNat]; omega))

theorem utf8EncodeChar_of_lt {c : Char} (h : c.toNat < 128) :
    String.utf8EncodeChar c = [c.toUInt8] := by
  rw [String.utf8EncodeChar_eq_singleton (utf8Size_of_lt h), Char.toUInt8_val]

theorem firstByte_of_lt {c : Char} (h : c.toNat < 128) : firstByte c = c.toUInt8 := by
  rw [firstByte, utf8EncodeChar_of_lt h]
  rfl

/-- Every byte of a character outside ASCII is at least `0x80`. -/
theorem le_of_mem_utf8EncodeChar {c : Char} (h : 128 ≤ c.toNat) :
    ∀ b ∈ String.utf8EncodeChar c, 0x80 ≤ b.toNat := by
  unfold String.utf8EncodeChar
  dsimp only
  simp only [Char.toNat] at h
  split_ifs <;> simp [UInt8.toNat_ofNat] <;> omega

/-- The first byte of a character outside ASCII is at least `0xC0`: it is no continuation
byte. -/
theorem le_firstByte {c : Char} (h : 128 ≤ c.toNat) : 0xC0 ≤ (firstByte c).toNat := by
  unfold firstByte String.utf8EncodeChar
  dsimp only
  simp only [Char.toNat] at h
  split_ifs <;> simp [UInt8.toNat_ofNat] <;> omega

/-- A byte class and a character class that agree on ASCII agree on the first byte of every
character, when the byte class refuses every byte from `0x80` on and the character class every
character from 128 on. -/
theorem class_firstByte {p : UInt8 → Bool} {q : Char → Bool}
    (hascii : ∀ n < 128, p (UInt8.ofNat n) = q (Char.ofNat n))
    (hp : ∀ b : UInt8, 128 ≤ b.toNat → p b = false)
    (hq : ∀ c : Char, 128 ≤ c.toNat → q c = false) (c : Char) : p (firstByte c) = q c := by
  by_cases h : c.toNat < 128
  · have hc : firstByte c = UInt8.ofNat c.toNat := by
      rw [firstByte_of_lt h, ← UInt8.toNat_inj, toNat_toUInt8 h, UInt8.toNat_ofNat']
      omega
    rw [hc, hascii c.toNat h, Char.ofNat_toNat]
  · have hb := le_firstByte (c := c) (by omega)
    rw [hp _ (by omega), hq c (by omega)]

@[simp] theorem isAsciiWhitespace_firstByte (c : Char) :
    isAsciiWhitespace (firstByte c) = isBlank c :=
  @class_firstByte isAsciiWhitespace isBlank (by decide)
    (fun b hb => by simp [isAsciiWhitespace, UInt8.ext_iff]; omega)
    (fun c hc => by simp [isBlank, Char.ext_iff, UInt32.ext_iff] at *; omega) c

@[simp] theorem isAsciiDigit_firstByte (c : Char) : isAsciiDigit (firstByte c) = c.isDigit :=
  @class_firstByte isAsciiDigit Char.isDigit (by decide)
    (fun b hb => by simp [isAsciiDigit, UInt8.le_iff_toNat_le]; omega)
    (fun c hc => by simp [Char.isDigit, UInt32.le_iff_toNat_le]; omega) c

@[simp] theorem isAsciiAlpha_firstByte (c : Char) : isAsciiAlpha (firstByte c) = c.isAlpha :=
  @class_firstByte isAsciiAlpha Char.isAlpha (by decide)
    (fun b hb => by simp [isAsciiAlpha, UInt8.le_iff_toNat_le]; omega)
    (fun c hc => by simp [Char.isAlpha, Char.isUpper, Char.isLower, UInt32.le_iff_toNat_le]; omega) c

@[simp] theorem isAsciiAlphanumeric_firstByte (c : Char) :
    isAsciiAlphanumeric (firstByte c) = c.isAlphanum := by
  rw [isAsciiAlphanumeric, Char.isAlphanum, isAsciiDigit_firstByte, isAsciiAlpha_firstByte,
    Bool.or_comm]

/-- The first byte of a character is an ASCII byte exactly when the character is that ASCII
character. -/
theorem firstByte_beq {x : Char} (hx : x.toNat < 128) (c : Char) :
    (firstByte c == x.toUInt8) = (c == x) := by
  by_cases h : c.toNat < 128
  · rw [firstByte_of_lt h, Bool.eq_iff_iff, beq_iff_eq, beq_iff_eq, ← UInt8.toNat_inj,
      toNat_toUInt8 h, toNat_toUInt8 hx, ← Char.toNat_inj]
  · have hb := le_firstByte (c := c) (by omega)
    have hne : firstByte c ≠ x.toUInt8 := fun he => by
      rw [he, toNat_toUInt8 hx] at hb
      omega
    have hne' : c ≠ x := fun he => h (he ▸ hx)
    simp [hne, hne']

/-! ## Offsets of what is left of the text -/

theorem bytes_eq (s : String) : bytes s = s.toList.flatMap String.utf8EncodeChar := by
  rw [bytes, ← String.utf8Encode_toList, List.utf8Encode, List.toList_data_toByteArray]

theorem length_flatMap_utf8EncodeChar (l : List Char) :
    (l.flatMap String.utf8EncodeChar).length = String.utf8Len l := by
  induction l with
  | nil => rfl
  | cons c l ih =>
    rw [List.flatMap_cons, List.length_append, String.length_utf8EncodeChar, ih,
      String.utf8Len_cons, Nat.add_comm]

theorem utf8ByteSize_eq_utf8Len (s : String) : s.utf8ByteSize = String.utf8Len s.toList := by
  rw [Token.utf8ByteSize_eq_byteSize, Lexeme.byteSize_eq_utf8Len]

theorem length_bytes (s : String) : (bytes s).length = s.utf8ByteSize := by
  rw [bytes_eq, length_flatMap_utf8EncodeChar, utf8ByteSize_eq_utf8Len]

/-- The offset where a suffix of the text starts. -/
def offsetOf (s : String) (r : List Char) : Nat :=
  s.utf8ByteSize - String.utf8Len r

section Suffix

variable {s : String}

theorem utf8Len_le {r : List Char} (hr : r <:+ s.toList) : String.utf8Len r ≤ s.utf8ByteSize :=
  utf8ByteSize_eq_utf8Len s ▸ String.utf8Len_le_of_suffix hr

/-- The bytes from the offset of a suffix on are the suffix's encoding. -/
theorem drop_offsetOf {r : List Char} (hr : r <:+ s.toList) :
    (bytes s).drop (offsetOf s r) = r.flatMap String.utf8EncodeChar := by
  obtain ⟨p, hp⟩ := hr
  have hsize : s.utf8ByteSize = String.utf8Len p + String.utf8Len r := by
    rw [utf8ByteSize_eq_utf8Len, ← hp, String.utf8Len_append]
  rw [bytes_eq, ← hp, List.flatMap_append, offsetOf, hsize, Nat.add_sub_cancel]
  exact List.drop_left' (length_flatMap_utf8EncodeChar p)

theorem peek_offsetOf_add {r : List Char} (hr : r <:+ s.toList) (k : Nat) :
    peek s (offsetOf s r + k) = (r.flatMap String.utf8EncodeChar)[k]? := by
  rw [peek, ← drop_offsetOf hr, List.getElem?_drop]

theorem peek_offsetOf_cons {c : Char} {r : List Char} (hr : c :: r <:+ s.toList) :
    peek s (offsetOf s (c :: r)) = some (firstByte c) := by
  have h := peek_offsetOf_add hr 0
  rw [Nat.add_zero, List.flatMap_cons, utf8EncodeChar_eq_cons] at h
  simpa using h

theorem peek_offsetOf_nil : peek s (offsetOf s []) = none := by
  simp [peek, offsetOf, length_bytes]

/-- A character takes its size in bytes. -/
theorem offsetOf_cons {c : Char} {r : List Char} (hr : c :: r <:+ s.toList) :
    offsetOf s (c :: r) + c.utf8Size = offsetOf s r := by
  have := utf8Len_le hr
  rw [String.utf8Len_cons] at this
  simp only [offsetOf, String.utf8Len_cons]
  omega

theorem offsetOf_cons_of_lt {c : Char} {r : List Char} (hr : c :: r <:+ s.toList)
    (h : c.toNat < 128) : offsetOf s (c :: r) + 1 = offsetOf s r :=
  utf8Size_of_lt h ▸ offsetOf_cons hr

theorem offsetOf_le_offsetOf {r t : List Char} (hr : r <:+ s.toList) (ht : t <:+ r) :
    offsetOf s r ≤ offsetOf s t := by
  have := String.utf8Len_le_of_suffix ht
  have := utf8Len_le hr
  simp only [offsetOf]
  omega

/-- The offset of every suffix is a character boundary. -/
theorem isCharBoundary_offsetOf {r : List Char} (hr : r <:+ s.toList) :
    isCharBoundary s (offsetOf s r) = true := by
  cases r with
  | nil => simp [isCharBoundary, offsetOf, length_bytes]
  | cons c r =>
    have hpeek := peek_offsetOf_cons hr
    rw [peek] at hpeek
    simp only [isCharBoundary, hpeek, Bool.or_eq_true, decide_eq_true_eq]
    refine .inr ?_
    by_cases h : c.toNat < 128
    · left
      rw [firstByte_of_lt h, UInt8.lt_iff_toNat_lt, toNat_toUInt8 h]
      exact h
    · right
      rw [UInt8.le_iff_toNat_le]
      exact le_firstByte (by omega)

theorem fromUTF8?_utf8Encode (l : List Char) :
    String.fromUTF8? l.utf8Encode = some (String.ofList l) := by
  rw [String.fromUTF8?, dif_pos ByteArray.isValidUTF8_utf8Encode, Option.some.injEq,
    ← String.toByteArray_inj, String.toByteArray_ofList]
  rfl

/-- The text between the offsets of two suffixes is the characters between them. -/
theorem slice_offsetOf {p t : List Char} (hr : p ++ t <:+ s.toList) :
    slice s (offsetOf s (p ++ t)) (offsetOf s t) = some (String.ofList p) := by
  have ht : t <:+ s.toList := (List.suffix_append p t).trans hr
  have hle := utf8Len_le hr
  rw [String.utf8Len_append] at hle
  have hab : offsetOf s t - offsetOf s (p ++ t) = String.utf8Len p := by
    simp only [offsetOf, String.utf8Len_append]
    omega
  rw [slice, if_pos ⟨offsetOf_le_offsetOf hr (List.suffix_append p t),
    isCharBoundary_offsetOf hr, isCharBoundary_offsetOf ht⟩, List.extract_eq_take_drop,
    drop_offsetOf hr, hab, List.flatMap_append,
    List.take_left' (length_flatMap_utf8EncodeChar p)]
  exact fromUTF8?_utf8Encode p

/-! ## Runs of a byte class -/

/-- Passing over the bytes of a class drops the characters of the class from what is left,
for a class of ASCII characters that the byte class matches on first bytes. -/
theorem skipWhile_offsetOf {p : UInt8 → Bool} {q : Char → Bool}
    (hpq : ∀ c, p (firstByte c) = q c) (hq : ∀ c, q c = true → c.toNat < 128) :
    ∀ {r : List Char}, r <:+ s.toList →
      skipWhile s p (offsetOf s r) = offsetOf s (r.dropWhile q)
  | [], _ => by rw [skipWhile, peek_offsetOf_nil]; rfl
  | c :: r, hr => by
    rw [skipWhile, peek_offsetOf_cons hr]
    simp only [hpq]
    by_cases hc : q c = true
    · rw [if_pos hc, offsetOf_cons_of_lt hr (hq c hc), List.dropWhile_cons_of_pos hc]
      exact skipWhile_offsetOf hpq hq ((List.suffix_cons c r).trans hr)
    · rw [if_neg hc, List.dropWhile_cons_of_neg hc]

theorem toNat_lt_of_isBlank {c : Char} (h : isBlank c = true) : c.toNat < 128 := by
  simp only [isBlank, Bool.or_eq_true, beq_iff_eq] at h
  rcases h with (((h | h) | h) | h) | h <;> subst h <;> decide

theorem toNat_lt_of_isAlphanum {c : Char} (h : c.isAlphanum = true) : c.toNat < 128 := by
  by_contra hc
  have hb := le_firstByte (c := c) (by omega)
  rw [← isAsciiAlphanumeric_firstByte] at h
  simp [isAsciiAlphanumeric, isAsciiDigit, isAsciiAlpha, UInt8.le_iff_toNat_le] at h
  omega

theorem toNat_lt_of_isDigit {c : Char} (h : c.isDigit = true) : c.toNat < 128 :=
  toNat_lt_of_isAlphanum (Token.isAlphanum_of_isDigit h)

theorem skipWhile_whitespace {r : List Char} (hr : r <:+ s.toList) :
    skipWhile s isAsciiWhitespace (offsetOf s r) = offsetOf s (r.dropWhile isBlank) :=
  skipWhile_offsetOf isAsciiWhitespace_firstByte (fun _ => toNat_lt_of_isBlank) hr

theorem skipWhile_alphanumeric {r : List Char} (hr : r <:+ s.toList) :
    skipWhile s isAsciiAlphanumeric (offsetOf s r) = offsetOf s (r.dropWhile Char.isAlphanum) :=
  skipWhile_offsetOf isAsciiAlphanumeric_firstByte (fun _ => toNat_lt_of_isAlphanum) hr

theorem skipWhile_digit {r : List Char} (hr : r <:+ s.toList) :
    skipWhile s isAsciiDigit (offsetOf s r) = offsetOf s (r.dropWhile Char.isDigit) :=
  skipWhile_offsetOf isAsciiDigit_firstByte
    (fun _ => toNat_lt_of_isDigit) hr

/-! ## Numbers -/

theorem signEnd_offsetOf {r : List Char} (hr : r <:+ s.toList) :
    signEnd s (offsetOf s r) = offsetOf s (signPart r).2 := by
  cases r with
  | nil => simp [signEnd, peek_offsetOf_nil, signPart]
  | cons c r =>
    rw [signEnd, peek_offsetOf_cons hr]
    simp only [Option.some_beq_some, firstByte_beq (by decide : '+'.toNat < 128),
      firstByte_beq (by decide : '-'.toNat < 128), Bool.or_eq_true, beq_iff_eq, signPart]
    split_ifs with h
    · rw [offsetOf_cons_of_lt hr (by rcases h with rfl | rfl <;> decide)]
    · rfl

/-- One step of the number loop at a character. -/
theorem numberEnd_cons {c : Char} {r : List Char} (hr : c :: r <:+ s.toList) (sd se : Bool) :
    numberEnd s sd se (offsetOf s (c :: r)) =
      if c.isDigit then numberEnd s sd se (offsetOf s r)
      else if c = '.' ∧ sd = false ∧ se = false then numberEnd s true se (offsetOf s r)
      else if (c = 'e' ∨ c = 'E') ∧ se = false then
        numberEnd s sd true (offsetOf s ((signPart r).2.dropWhile Char.isDigit))
      else offsetOf s (c :: r) := by
  have hr' := (List.suffix_cons c r).trans hr
  rw [numberEnd, peek_offsetOf_cons hr]
  simp only [isAsciiDigit_firstByte, firstByte_beq (by decide : '.'.toNat < 128),
    firstByte_beq (by decide : 'e'.toNat < 128), firstByte_beq (by decide : 'E'.toNat < 128),
    Bool.and_eq_true, Bool.or_eq_true, beq_iff_eq, Bool.not_eq_true', and_assoc]
  split_ifs with h1 h2 h3
  · rw [offsetOf_cons_of_lt hr (toNat_lt_of_isDigit h1)]
  · obtain ⟨rfl, -, -⟩ := h2
    rw [offsetOf_cons_of_lt hr (by decide)]
  · have hc : c.toNat < 128 := by rcases h3.1 with rfl | rfl <;> decide
    rw [offsetOf_cons_of_lt hr hc, signEnd_offsetOf hr',
      skipWhile_digit ((Token.signPart_suffix r).trans hr')]
  · rfl

theorem numberEnd_nil (sd se : Bool) : numberEnd s sd se (offsetOf s []) = offsetOf s [] := by
  rw [numberEnd, peek_offsetOf_nil]

/-- The number loop passes over digits in any state. -/
theorem numberEnd_digits (sd se : Bool) : ∀ {r : List Char}, r <:+ s.toList →
    numberEnd s sd se (offsetOf s r) = numberEnd s sd se (offsetOf s (r.dropWhile Char.isDigit))
  | [], _ => rfl
  | c :: r, hr => by
    by_cases hc : c.isDigit = true
    · rw [numberEnd_cons hr, if_pos hc, List.dropWhile_cons_of_pos hc]
      exact numberEnd_digits sd se ((List.suffix_cons c r).trans hr)
    · rw [List.dropWhile_cons_of_neg hc]

theorem isDigit_head_dropWhile {r r' : List Char} {d : Char}
    (h : r.dropWhile Char.isDigit = d :: r') : d.isDigit = false := by
  have := @List.head_dropWhile_not _ Char.isDigit r (by simp [h])
  simpa [h] using this

/-- After the exponent's digits the number loop stops. -/
theorem numberEnd_exponentDone (sd : Bool) {r : List Char} (hr : r <:+ s.toList) :
    numberEnd s sd true (offsetOf s (r.dropWhile Char.isDigit)) =
      offsetOf s (r.dropWhile Char.isDigit) := by
  have hr' := (List.dropWhile_suffix Char.isDigit).trans hr
  cases h : r.dropWhile Char.isDigit with
  | nil => exact numberEnd_nil sd true
  | cons d r' =>
    rw [h] at hr'
    rw [numberEnd_cons hr', if_neg (by simp [isDigit_head_dropWhile h]), if_neg (by simp),
      if_neg (by simp)]

/-- Where the fraction ends, the number loop reads the exponent part. -/
theorem numberEnd_exponentPart (sd : Bool) {F : List Char} (hF : F <:+ s.toList)
    (hstop : ∀ d F', F = d :: F' → d.isDigit = false ∧ (d = '.' → sd = true)) :
    numberEnd s sd false (offsetOf s F) = offsetOf s (exponentPart F).2 := by
  cases F with
  | nil => rw [numberEnd_nil]; rfl
  | cons d F' =>
    obtain ⟨hd, hdot⟩ := hstop d F' rfl
    have hF' := (List.suffix_cons d F').trans hF
    rw [numberEnd_cons hF, if_neg (by simp [hd]),
      if_neg (fun h => absurd (hdot h.1) (by simp [h.2.1]))]
    by_cases he : d = 'e' ∨ d = 'E'
    · rw [if_pos ⟨he, rfl⟩, numberEnd_exponentDone sd ((Token.signPart_suffix F').trans hF')]
      simp [exponentPart, he]
    · rw [if_neg (fun h => he h.1)]
      simp [exponentPart, he]

theorem fractionPart_of_ne {d : Char} (h : d ≠ '.') (r : List Char) :
    fractionPart (d :: r) = ([], d :: r) := by
  rw [Token.fractionPart.eq_2 (d :: r) (fun _ he => h (List.cons.inj he).1)]

/-- The number loop stops where the number's text ends. -/
theorem numberEnd_numberText {c : Char} {r : List Char} (hr : c :: r <:+ s.toList) :
    numberEnd s false false (offsetOf s (c :: r)) = offsetOf s (numberText (c :: r)).2 := by
  have hD : (c :: r).dropWhile Char.isDigit <:+ s.toList := (List.dropWhile_suffix _).trans hr
  rw [numberEnd_digits false false hr]
  simp only [numberText]
  cases hd : (c :: r).dropWhile Char.isDigit with
  | nil => rw [numberEnd_nil]; rfl
  | cons d D' =>
    rw [hd] at hD
    have hdd := isDigit_head_dropWhile hd
    by_cases hdot : d = '.'
    · -- a fraction, then the exponent part
      subst hdot
      have hD' := (List.suffix_cons _ _).trans hD
      rw [numberEnd_cons hD, if_neg (by simp [hdd]), if_pos ⟨rfl, rfl, rfl⟩,
        numberEnd_digits true false hD',
        numberEnd_exponentPart true ((List.dropWhile_suffix _).trans hD')
          (fun _ _ h => ⟨isDigit_head_dropWhile h, fun _ => rfl⟩)]
      rfl
    · rw [numberEnd_exponentPart false hD
        (fun _ _ h => by cases h; exact ⟨hdd, fun h => absurd h hdot⟩), fractionPart_of_ne hdot]

theorem signPart_append (cs : List Char) : (signPart cs).1 ++ (signPart cs).2 = cs := by
  unfold signPart
  split
  · split <;> rfl
  · rfl

theorem numberText_append (cs : List Char) : (numberText cs).1 ++ (numberText cs).2 = cs := by
  have hexp : ∀ F : List Char, (exponentPart F).1 ++ (exponentPart F).2 = F := by
    intro F
    unfold exponentPart
    split
    · rename_i d F'
      split
      · have := signPart_append F'
        simp only [List.cons_append, List.append_assoc, List.takeWhile_append_dropWhile]
        rw [this]
      · rfl
    · rfl
  have hfrac : ∀ D : List Char, (fractionPart D).1 ++ (fractionPart D).2 = D := by
    intro D
    unfold fractionPart
    split
    · simp
    · rfl
  simp only [numberText, List.append_assoc, hexp]
  rw [hfrac, List.takeWhile_append_dropWhile]

theorem numberText_ne_nil {c : Char} (r : List Char) (hc : c.isDigit = true) :
    (numberText (c :: r)).1 ≠ [] := by
  simp [numberText, List.takeWhile_cons_of_pos hc]

/-- A number token is read from its text, cut out where the number loop stops. -/
theorem lexNumber_offsetOf {c : Char} {r : List Char} (hr : c :: r <:+ s.toList)
    (hc : c.isDigit = true) :
    lexNumber s (offsetOf s (c :: r)) =
      some (Token.numberToken (numberText (c :: r)).1, offsetOf s (numberText (c :: r)).2) := by
  have happ := numberText_append (c :: r)
  have hslice := slice_offsetOf (s := s) (happ.symm ▸ hr)
  rw [happ] at hslice
  have hne : (String.ofList (numberText (c :: r)).1).isEmpty = false := by
    simpa [String.isEmpty_iff] using numberText_ne_nil r hc
  rw [lexNumber, numberEnd_numberText hr, hslice, Option.map_some, Token.numberToken]
  cases Number.read? (String.ofList (numberText (c :: r)).1) <;> simp [floatError, hne, String.append_assoc]

/-! ## Quoted strings -/

/-- A character other than an ASCII character has none of its bytes equal to that
character's byte. -/
theorem ne_of_mem_utf8EncodeChar {x c : Char} (hx : x.toNat < 128) (hc : c ≠ x) :
    ∀ b ∈ String.utf8EncodeChar c, b ≠ x.toUInt8 := by
  by_cases h : c.toNat < 128
  · rw [utf8EncodeChar_of_lt h, List.forall_mem_singleton]
    intro he
    have := firstByte_beq hx c
    rw [firstByte_of_lt h, he, beq_self_eq_true] at this
    exact hc (beq_iff_eq.1 this.symm)
  · intro b hb he
    have := le_of_mem_utf8EncodeChar (by omega) b hb
    rw [he, toNat_toUInt8 hx] at this
    omega

/-- The bytes of a character stand between the offsets before and after it. -/
theorem peek_offsetOf_cons_add {c : Char} {r : List Char} (hr : c :: r <:+ s.toList) {k : Nat}
    (hk : k < (String.utf8EncodeChar c).length) :
    peek s (offsetOf s (c :: r) + k) = (String.utf8EncodeChar c)[k]? := by
  rw [peek_offsetOf_add hr, List.flatMap_cons, List.getElem?_append_left hk]

theorem offsetOf_cons_add_length {c : Char} {r : List Char} (hr : c :: r <:+ s.toList) :
    offsetOf s (c :: r) + (String.utf8EncodeChar c).length = offsetOf s r := by
  rw [String.length_utf8EncodeChar, offsetOf_cons hr]

/-- The quoted-string loop passes over bytes that are neither a quote nor a backslash. -/
theorem quotedLoop_skip (out : String) (seg : Nat) : ∀ (bs : List UInt8) (i : Nat),
    (∀ b ∈ bs, b ≠ '"'.toUInt8 ∧ b ≠ '\\'.toUInt8) →
    (∀ k < bs.length, peek s (i + k) = bs[k]?) →
    quotedLoop s out seg i = quotedLoop s out seg (i + bs.length)
  | [], i, _, _ => rfl
  | b :: bs, i, hb, hpeek => by
    have h0 : peek s i = some b := by simpa using hpeek 0 (by simp)
    obtain ⟨hq, hbs⟩ := hb b List.mem_cons_self
    rw [quotedLoop, h0]
    dsimp only
    rw [if_neg (by simpa using hq), if_neg (by simpa using hbs)]
    rw [quotedLoop_skip out seg bs (i + 1) (fun b' hb' => hb b' (List.mem_cons_of_mem b hb'))
      (fun k hk => by simpa [Nat.add_assoc, Nat.add_comm 1 k] using hpeek (k + 1) (by simp; omega))]
    simp only [List.length_cons]
    rw [Nat.add_assoc, Nat.add_comm 1]

/-- The quoted-string loop passes over a character other than a quote or a backslash. -/
theorem quotedLoop_cons {c : Char} {r : List Char} (hr : c :: r <:+ s.toList) (h₁ : c ≠ '"')
    (h₂ : c ≠ '\\') (out : String) (seg : Nat) :
    quotedLoop s out seg (offsetOf s (c :: r)) = quotedLoop s out seg (offsetOf s r) := by
  rw [quotedLoop_skip out seg (String.utf8EncodeChar c) _
    (fun b hb => ⟨ne_of_mem_utf8EncodeChar (by decide) h₁ b hb,
      ne_of_mem_utf8EncodeChar (by decide) h₂ b hb⟩)
    (fun k hk => peek_offsetOf_cons_add hr hk), offsetOf_cons_add_length hr]

/-- An escape `\"` or `\\` copies the text before it and the escaped character, and the loop
goes on after it. -/
theorem quotedLoop_escape {e : Char} (he : e = '"' ∨ e = '\\') {p t : List Char}
    (hr : p ++ '\\' :: e :: t <:+ s.toList) (out : String) :
    quotedLoop s out (offsetOf s (p ++ '\\' :: e :: t)) (offsetOf s ('\\' :: e :: t)) =
      quotedLoop s ((out ++ String.ofList p).push e) (offsetOf s t) (offsetOf s t) := by
  have hq := (List.suffix_append p _).trans hr
  have hq' := (List.suffix_cons _ _).trans hq
  have hasc : e.toNat < 128 := by rcases he with rfl | rfl <;> decide
  have h1 := offsetOf_cons_of_lt hq (by decide)
  have h2 : offsetOf s ('\\' :: e :: t) + 2 = offsetOf s t := by
    have := offsetOf_cons_of_lt hq' hasc
    omega
  have hb : (firstByte e == '"'.toUInt8 || firstByte e == '\\'.toUInt8) = true := by
    rcases he with rfl | rfl <;> decide
  have hc : Char.ofUInt8 (firstByte e) = e := by
    rcases he with rfl | rfl <;> decide
  rw [quotedLoop, peek_offsetOf_cons hq]
  dsimp only
  rw [if_neg (by decide), if_pos (by decide), slice_offsetOf hr]
  dsimp only
  rw [h2, h1, peek_offsetOf_cons hq']
  dsimp only
  rw [if_pos hb, hc]

/-- A backslash before anything but a quote or a backslash is copied with the text before it,
and the loop goes on after it. -/
theorem quotedLoop_backslash {p t : List Char} (hr : p ++ '\\' :: t <:+ s.toList)
    (ht : ∀ e t', t = e :: t' → e ≠ '"' ∧ e ≠ '\\') (out : String) :
    quotedLoop s out (offsetOf s (p ++ '\\' :: t)) (offsetOf s ('\\' :: t)) =
      quotedLoop s ((out ++ String.ofList p).push '\\') (offsetOf s t) (offsetOf s t) := by
  have hq := (List.suffix_append p _).trans hr
  have hq' := (List.suffix_cons _ _).trans hq
  rw [quotedLoop, peek_offsetOf_cons hq]
  dsimp only
  rw [if_neg (by decide), if_pos (by decide), slice_offsetOf hr]
  dsimp only
  rw [offsetOf_cons_of_lt hq (by decide)]
  cases t with
  | nil => rw [peek_offsetOf_nil]
  | cons e t' =>
    obtain ⟨h₁, h₂⟩ := ht e t' rfl
    rw [peek_offsetOf_cons hq']
    dsimp only
    rw [if_neg (by simp [firstByte_beq (by decide : '"'.toNat < 128),
      firstByte_beq (by decide : '\\'.toNat < 128), h₁, h₂])]

/-- The quoted-string loop reads the body that `Token.quotedBody` reads. From a cursor after
characters `p` that are not yet copied into `out`, it gives `out` with `p` and the body after
it, and the cursor after the closing quote; or `unmatched quote` with the cursor at the end. -/
theorem quotedLoop_offsetOf (out : String) {p r : List Char} (hr : p ++ r <:+ s.toList) :
    quotedLoop s out (offsetOf s (p ++ r)) (offsetOf s r) =
      some ((quotedBody r).elim (.error "unmatched quote", offsetOf s [])
        fun bt => (.ok (out ++ String.ofList p ++ String.ofList bt.1), offsetOf s bt.2)) := by
  fun_induction quotedBody r generalizing out p with
  | case1 =>
    rw [quotedLoop, peek_offsetOf_nil]
    rfl
  | case2 t =>
    have hq : '"' :: t <:+ s.toList := (List.suffix_append p _).trans hr
    rw [quotedLoop, peek_offsetOf_cons hq]
    dsimp only
    rw [if_pos (by decide), slice_offsetOf hr, offsetOf_cons_of_lt hq (by decide)]
    simp
  | case3 t ih | case4 t ih =>
    have ht := (List.suffix_cons _ _).trans ((List.suffix_cons _ _).trans
      ((List.suffix_append p _).trans hr))
    rw [quotedLoop_escape (by simp) hr]
    refine (@ih _ [] ht).trans ?_
    cases quotedBody t <;> simp [← String.toList_inj]
  | case5 c t hc1 hc2 hc3 ih =>
    have hq := (List.suffix_append p _).trans hr
    have ht := (List.suffix_cons _ _).trans hq
    by_cases hb : c = '\\'
    · -- a backslash that escapes nothing stands for itself
      subst hb
      rw [quotedLoop_backslash hr fun e t' he =>
        ⟨fun h => hc2 t' rfl (h ▸ he), fun h => hc3 t' rfl (h ▸ he)⟩]
      refine (@ih _ [] ht).trans ?_
      cases quotedBody t <;> simp [← String.toList_inj]
    · -- any other character stays in the text not yet copied
      rw [quotedLoop_cons hq hc1 hb, List.append_cons p c t]
      refine (@ih out (p ++ [c]) (by simpa using hr)).trans ?_
      cases quotedBody t <;> simp [← String.toList_inj]

/-! ## Bracket groups -/

/-- What a loop that reads a scanned piece gives: success with the cursor after the piece, or
the message with the cursor at the end of the text. -/
def pieceResult (s : String) : Except String (List Char × List Char) → Except String Unit × Nat
  | .ok (_, t) => (.ok (), offsetOf s t)
  | .error m => (.error m, offsetOf s [])

@[simp] theorem pieceResult_keepAll (s : String) (w : List Char)
    (e : Except String (List Char × List Char)) :
    pieceResult s (Token.keepAll w e) = pieceResult s e := by
  rcases e with m | ⟨g, t⟩ <;> rfl

section Suffix

variable {s : String}

/-- Inside a group, a quoted string that closes is passed over whole. -/
theorem group_quoted_some {d : Nat} {t b u : List Char} (h : quotedBody t = some (b, u)) :
    pieceResult s (group d true t) = pieceResult s (group d false u) := by
  obtain ⟨w, hw, rfl⟩ := Token.quotedBody_eq_some_iff.1 h
  rw [Token.group_quoted hw, Token.group_closeQuote]
  simp

/-- Inside a group, a quoted string that does not close ends the group with its message. -/
theorem group_quoted_none {d : Nat} {t : List Char} (h : quotedBody t = none) :
    group d true t = .error "unmatched quote" := by
  rcases Token.quoted_cases t with ⟨w, b, u, hw, rfl⟩ | ⟨w, b, hw, ht | ht⟩
  · rw [Token.quotedBody_items hw] at h
    simp [quotedBody] at h
  · rw [ht, ← List.append_nil w, Token.group_quoted hw]
    simp [Token.unclosedMessage]
  · rw [ht, Token.group_quoted hw, Token.group_backslash_end]
    rfl

/-- The bracket loop passes over bytes that are no bracket and no quote. -/
theorem bracketLoop_skip (d : Nat) : ∀ (bs : List UInt8) (i : Nat),
    (∀ b ∈ bs, b ≠ ')'.toUInt8 ∧ b ≠ '"'.toUInt8 ∧ b ≠ '('.toUInt8) →
    (∀ k < bs.length, peek s (i + k) = bs[k]?) →
    bracketLoop s d i = bracketLoop s d (i + bs.length)
  | [], i, _, _ => rfl
  | b :: bs, i, hb, hpeek => by
    have h0 : peek s i = some b := by simpa using hpeek 0 (by simp)
    obtain ⟨h₁, h₂, h₃⟩ := hb b List.mem_cons_self
    rw [bracketLoop.eq_def, h0]
    dsimp only
    rw [if_neg (by simpa using h₁), if_neg (by simpa using h₂), if_neg (by simpa using h₃)]
    rw [bracketLoop_skip d bs (i + 1) (fun b' hb' => hb b' (List.mem_cons_of_mem b hb'))
      (fun k hk => by simpa [Nat.add_assoc, Nat.add_comm 1 k] using hpeek (k + 1) (by simp; omega))]
    simp only [List.length_cons]
    rw [Nat.add_assoc, Nat.add_comm 1]

/-- The bracket loop reads the group that `Token.group` reads, at every depth. -/
theorem bracketLoop_offsetOf (d : Nat) {r : List Char} (hr : r <:+ s.toList) :
    bracketLoop s d (offsetOf s r) = some (pieceResult s (group d false r)) := by
  induction hn : r.length using Nat.strong_induction_on generalizing d r with
  | _ n ih =>
  subst hn
  match r, hr with
  | [], _ =>
    rw [bracketLoop.eq_def, peek_offsetOf_nil]
    rfl
  | c :: t, hr =>
    have ht := (List.suffix_cons c t).trans hr
    have iht : ∀ {u : List Char}, u <:+ t → ∀ d,
        bracketLoop s d (offsetOf s u) = some (pieceResult s (group d false u)) :=
      fun hu d => ih _ (Nat.lt_of_le_of_lt hu.length_le (by simp)) d (hu.trans ht) rfl
    by_cases hclose : c = ')'
    · subst hclose
      rw [bracketLoop.eq_def, peek_offsetOf_cons hr]
      dsimp only
      rw [if_pos (by decide), offsetOf_cons_of_lt hr (by decide)]
      cases d with
      | zero => rfl
      | succ d =>
        dsimp only
        rw [iht (List.suffix_refl t), Token.group_close_succ]
        simp
    by_cases hquote : c = '"'
    · subst hquote
      rw [bracketLoop.eq_def, peek_offsetOf_cons hr]
      dsimp only
      rw [if_neg (by decide), if_pos (by decide), offsetOf_cons_of_lt hr (by decide),
        Token.group_openQuote, Token.keep_eq_keepAll, pieceResult_keepAll]
      have hq := quotedLoop_offsetOf (s := s) "" (p := []) ht
      simp only [List.nil_append] at hq
      split
      · rename_i hl
        rw [hq] at hl
        cases quotedBody t <;> simp at hl
      · rename_i m j hl
        rw [hq] at hl
        cases hb : quotedBody t with
        | none =>
          rw [hb] at hl
          simp only [Option.elim_none, Option.some.injEq, Prod.mk.injEq, Except.error.injEq] at hl
          obtain ⟨rfl, rfl⟩ := hl
          rw [group_quoted_none hb]
          rfl
        | some bu => rw [hb] at hl; simp at hl
      · rename_i body j hl
        rw [hq] at hl
        cases hb : quotedBody t with
        | none => rw [hb] at hl; simp at hl
        | some bu =>
          obtain ⟨b, u⟩ := bu
          rw [hb] at hl
          simp only [Option.elim_some, Option.some.injEq, Prod.mk.injEq] at hl
          obtain ⟨-, rfl⟩ := hl
          rw [group_quoted_some hb]
          exact iht (Token.quotedBody_suffix hb) d
    by_cases hopen : c = '('
    · subst hopen
      rw [bracketLoop.eq_def, peek_offsetOf_cons hr]
      dsimp only
      rw [if_neg (by decide), if_neg (by decide), if_pos (by decide),
        offsetOf_cons_of_lt hr (by decide), iht (List.suffix_refl t), Token.group_open]
      simp
    · rw [bracketLoop_skip d (String.utf8EncodeChar c) _
        (fun b hb => ⟨ne_of_mem_utf8EncodeChar (by decide) hclose b hb,
          ne_of_mem_utf8EncodeChar (by decide) hquote b hb,
          ne_of_mem_utf8EncodeChar (by decide) hopen b hb⟩)
        (fun k hk => peek_offsetOf_cons_add hr hk), offsetOf_cons_add_length hr,
        iht (List.suffix_refl t), Token.group_plain hopen hclose hquote]
      simp

end Suffix

/-! ## Symbols -/

/-- What the symbol loop gives for a scanned symbol: the word's token with the cursor after
it, or an invalid token with the cursor at the end of the text. -/
def symbolResult (s : String) : Except String (List Char × List Char) → Token × Nat
  | .ok (w, t) => (Token.ofWord (String.ofList w), offsetOf s t)
  | .error m => (.invalid m, offsetOf s [])

theorem goesOn_offsetOf {t : List Char} (ht : t <:+ s.toList) :
    goesOn s (offsetOf s t) = Token.continuesSymbol t := by
  cases t with
  | nil => simp [goesOn, peek_offsetOf_nil, Token.continuesSymbol]
  | cons c t =>
    simp [goesOn, peek_offsetOf_cons ht, Token.continuesSymbol,
      firstByte_beq (by decide : '.'.toNat < 128)]

/-- A round of the symbol loop takes the run of letters and digits and the white space after
it. -/
theorem symbolRound {cs : List Char} (hcs : cs <:+ s.toList) :
    skipWhile s isAsciiAlphanumeric (offsetOf s cs) = offsetOf s (cs.dropWhile Char.isAlphanum) ∧
    slice s (offsetOf s cs) (offsetOf s (cs.dropWhile Char.isAlphanum)) =
      some (String.ofList (cs.takeWhile Char.isAlphanum)) ∧
    skipWhile s isAsciiWhitespace (offsetOf s (cs.dropWhile Char.isAlphanum)) =
      offsetOf s ((cs.dropWhile Char.isAlphanum).dropWhile isBlank) := by
  have hd := (List.dropWhile_suffix Char.isAlphanum).trans hcs
  refine ⟨skipWhile_alphanumeric hcs, ?_, skipWhile_whitespace hd⟩
  have := slice_offsetOf (s := s) (p := cs.takeWhile Char.isAlphanum)
    (t := cs.dropWhile Char.isAlphanum) (by rwa [List.takeWhile_append_dropWhile])
  rwa [List.takeWhile_append_dropWhile] at this

/-- A letter at the start of a round joins the run: the loop reads on as if it had been taken
already. -/
theorem symbolLoop_alpha {c : Char} {r : List Char} (hr : c :: r <:+ s.toList)
    (hc : c.isAlpha = true) (text : String) :
    symbolLoop s text (offsetOf s (c :: r)) = symbolLoop s (text.push c) (offsetOf s r) := by
  have hcn := Token.isAlphanum_of_isAlpha hc
  obtain ⟨h1, h2, h3⟩ := symbolRound hr
  obtain ⟨h1', h2', -⟩ := symbolRound ((List.suffix_cons c r).trans hr)
  rw [List.dropWhile_cons_of_pos hcn] at h1 h2 h3
  rw [List.takeWhile_cons_of_pos hcn] at h2
  rw [symbolLoop.eq_1 s text, symbolLoop.eq_1 s (text.push c), h1, h1', h3, h2, h2']
  dsimp only
  rw [show text ++ String.ofList (c :: r.takeWhile Char.isAlphanum) =
    text.push c ++ String.ofList (r.takeWhile Char.isAlphanum) by simp [← String.toList_inj]]

section Round

variable {text : String} {cs r : List Char}

theorem suffix_of_afterRun (hcs : cs <:+ s.toList)
    (hr : (cs.dropWhile Char.isAlphanum).dropWhile isBlank = r) : r <:+ s.toList :=
  hr ▸ (Token.afterRun_suffix cs).trans hcs

/-- After the run and the white space, a `.` is taken and a new round follows. -/
theorem symbolLoop_dot (hcs : cs <:+ s.toList)
    (hr : (cs.dropWhile Char.isAlphanum).dropWhile isBlank = '.' :: r) :
    symbolLoop s text (offsetOf s cs) =
      symbolLoop s (text ++ String.ofList (cs.takeWhile Char.isAlphanum) ++ ".") (offsetOf s r) := by
  obtain ⟨h1, h2, h3⟩ := symbolRound hcs
  have hd := suffix_of_afterRun hcs hr
  rw [symbolLoop, h1, h3, h2, hr]
  dsimp only
  rw [peek_offsetOf_cons hd]
  dsimp only
  rw [if_pos (by decide), offsetOf_cons_of_lt hd (by decide)]

/-- After the run and the white space, a bracket group that does not close ends the symbol
with its message, and the cursor at the end of the text. -/
theorem symbolLoop_groupError (hcs : cs <:+ s.toList)
    (hr : (cs.dropWhile Char.isAlphanum).dropWhile isBlank = '(' :: r) {m : String}
    (hg : group 0 false r = .error m) :
    symbolLoop s text (offsetOf s cs) = some (.invalid m, offsetOf s []) := by
  obtain ⟨h1, h2, h3⟩ := symbolRound hcs
  have hd := suffix_of_afterRun hcs hr
  rw [symbolLoop, h1, h3, h2, hr]
  dsimp only
  rw [peek_offsetOf_cons hd]
  dsimp only
  rw [if_neg (by decide), if_pos (by decide), offsetOf_cons_of_lt hd (by decide),
    bracketLoop_offsetOf 0 ((List.suffix_cons _ _).trans hd), hg]
  rfl

/-- After the run and the white space, a bracket group is taken whole, and the symbol goes on
after it only if a letter or a `.` follows. -/
theorem symbolLoop_group (hcs : cs <:+ s.toList)
    (hr : (cs.dropWhile Char.isAlphanum).dropWhile isBlank = '(' :: r) {g t : List Char}
    (hg : group 0 false r = .ok (g, t)) :
    symbolLoop s text (offsetOf s cs) =
      let text := text ++ String.ofList (cs.takeWhile Char.isAlphanum) ++ String.ofList ('(' :: g)
      if Token.continuesSymbol t then symbolLoop s text (offsetOf s t)
      else some (Token.ofWord text, offsetOf s t) := by
  obtain ⟨h1, h2, h3⟩ := symbolRound hcs
  have hd := suffix_of_afterRun hcs hr
  have hgt : ('(' :: g) ++ t = '(' :: r := by rw [(Token.group_eq_append hg).1]; rfl
  have ht : t <:+ s.toList := (List.suffix_append _ t).trans (hgt ▸ hd)
  rw [symbolLoop, h1, h3, h2, hr]
  dsimp only
  rw [peek_offsetOf_cons hd]
  dsimp only
  rw [if_neg (by decide), if_pos (by decide), offsetOf_cons_of_lt hd (by decide),
    bracketLoop_offsetOf 0 ((List.suffix_cons _ _).trans hd), hg]
  dsimp only [pieceResult]
  rw [← hgt, slice_offsetOf (hgt ▸ hd)]
  dsimp only
  rw [goesOn_offsetOf ht]

/-- After the run and the white space, any other character ends the symbol, unless it is a
letter, which starts the next round. -/
theorem symbolLoop_other (hcs : cs <:+ s.toList) {c : Char}
    (hr : (cs.dropWhile Char.isAlphanum).dropWhile isBlank = c :: r) (hdot : c ≠ '.')
    (hparen : c ≠ '(') :
    symbolLoop s text (offsetOf s cs) =
      let text := text ++ String.ofList (cs.takeWhile Char.isAlphanum)
      if c.isAlpha then symbolLoop s (text.push c) (offsetOf s r)
      else some (Token.ofWord text, offsetOf s (c :: r)) := by
  obtain ⟨h1, h2, h3⟩ := symbolRound hcs
  have hd := suffix_of_afterRun hcs hr
  rw [symbolLoop, h1, h3, h2, hr]
  dsimp only
  rw [peek_offsetOf_cons hd]
  dsimp only
  rw [if_neg (by simpa [firstByte_beq (by decide : '.'.toNat < 128)] using hdot),
    if_neg (by simpa [firstByte_beq (by decide : '('.toNat < 128)] using hparen),
    goesOn_offsetOf hd]
  by_cases hc : c.isAlpha = true
  · rw [dif_pos (by simp [Token.continuesSymbol, hc]), if_pos hc, symbolLoop_alpha hd hc]
  · rw [dif_neg (by simp [Token.continuesSymbol, hdot, Bool.eq_false_iff.2 hc]), if_neg hc]

/-- At the end of the text the symbol ends. -/
theorem symbolLoop_end (hcs : cs <:+ s.toList)
    (hr : (cs.dropWhile Char.isAlphanum).dropWhile isBlank = []) :
    symbolLoop s text (offsetOf s cs) =
      some (Token.ofWord (text ++ String.ofList (cs.takeWhile Char.isAlphanum)), offsetOf s []) := by
  obtain ⟨h1, h2, h3⟩ := symbolRound hcs
  rw [symbolLoop, h1, h3, h2, hr]
  dsimp only
  rw [peek_offsetOf_nil]

end Round

/-- The symbol loop reads the symbol that `Token.symbolRest` reads. The induction follows the
rounds of `Token.symbolRest`. -/
theorem symbolLoop_offsetOf (acc : List Char) {cs : List Char} (hcs : cs <:+ s.toList) :
    symbolLoop s (String.ofList acc) (offsetOf s cs) =
      some (symbolResult s (Token.symbolRest acc cs)) := by
  fun_induction Token.symbolRest acc cs with
  | case1 acc cs r hr ih =>
    rw [symbolLoop_dot hcs hr, ← String.ofList_append,
      show String.ofList (acc ++ cs.takeWhile Char.isAlphanum) ++ "." =
        String.ofList (acc ++ cs.takeWhile Char.isAlphanum ++ ['.']) by simp [← String.toList_inj]]
    exact ih ((List.suffix_cons _ _).trans (suffix_of_afterRun hcs hr))
  | case2 acc cs r hr m hg => rw [symbolLoop_groupError hcs hr hg]; rfl
  | case3 acc cs r hr g t hg _ hc ih =>
    have ht := (Token.group_suffix hg).trans ((List.suffix_cons _ _).trans (suffix_of_afterRun hcs hr))
    rw [symbolLoop_group hcs hr hg]
    dsimp only
    rw [if_pos hc, ← String.ofList_append, ← String.ofList_append]
    exact ih ht
  | case4 acc cs r hr g t hg _ hc =>
    rw [symbolLoop_group hcs hr hg]
    dsimp only
    rw [if_neg hc, ← String.ofList_append, ← String.ofList_append]
    rfl
  | case5 acc cs c r hdot hparen hr hc ih =>
    rw [symbolLoop_other hcs hr hdot hparen]
    dsimp only
    rw [if_pos hc, ← String.ofList_append,
      show (String.ofList (acc ++ cs.takeWhile Char.isAlphanum)).push c =
        String.ofList (acc ++ cs.takeWhile Char.isAlphanum ++ [c]) by simp [← String.toList_inj]]
    exact ih ((List.suffix_cons _ _).trans (suffix_of_afterRun hcs hr))
  | case6 acc cs c r hdot hparen hr hc =>
    rw [symbolLoop_other hcs hr hdot hparen]
    dsimp only
    rw [if_neg hc, ← String.ofList_append]
    rfl
  | case7 acc cs hr =>
    rw [symbolLoop_end hcs hr, ← String.ofList_append]
    rfl

/-! ## One token -/

theorem ofUInt8_toUInt8 {x : Char} (hx : x.toNat < 128) : Char.ofUInt8 x.toUInt8 = x := by
  rw [← Char.toNat_inj, ← toNat_toUInt8 hx]
  rfl

/-- A doubled operator after its first character. -/
theorem doubled_offsetOf {x : Char} (hx : x.toNat < 128) (o : Operator) {r : List Char}
    (hr : x :: r <:+ s.toList) :
    doubled s x.toUInt8 o (offsetOf s (x :: r)) =
      ((Token.doubled x o r).1, offsetOf s (Token.doubled x o r).2) := by
  have h1 := offsetOf_cons_of_lt hr hx
  rw [doubled, h1, ofUInt8_toUInt8 hx]
  cases r with
  | nil => simp [peek_offsetOf_nil, Token.doubled]
  | cons d r =>
    have hd := (List.suffix_cons x _).trans hr
    rw [peek_offsetOf_cons hd, Option.some_beq_some, firstByte_beq hx]
    by_cases h : d = x
    · subst h
      have h2 := offsetOf_cons_of_lt hd hx
      simp only [beq_self_eq_true, if_true, Token.doubled, Prod.mk.injEq, true_and]
      omega
    · simp [h, Token.doubled]

/-- An operator with an optional `=` after its first character. -/
theorem withEq_offsetOf {x : Char} (hx : x.toNat < 128) (a b : Operator) {r : List Char}
    (hr : x :: r <:+ s.toList) :
    withEq s a b (offsetOf s (x :: r)) =
      ((Token.withEq a b r).1, offsetOf s (Token.withEq a b r).2) := by
  have h1 := offsetOf_cons_of_lt hr hx
  rw [withEq, h1]
  cases r with
  | nil => simp [peek_offsetOf_nil, Token.withEq]
  | cons d r =>
    have hd := (List.suffix_cons x _).trans hr
    rw [peek_offsetOf_cons hd, Option.some_beq_some, firstByte_beq (by decide)]
    by_cases h : d = '='
    · subst h
      have h2 := offsetOf_cons_of_lt hd (by decide)
      simp only [beq_self_eq_true, if_true, Token.withEq, Prod.mk.injEq, true_and]
      omega
    · rw [Token.withEq.eq_2 a b (d :: r) (fun r' he => h (List.cons.inj he).1)]
      simp [h]

/-- A byte that starts no token is an invalid symbol: the whole character is decoded and
passed over. -/
theorem invalidChar_offsetOf {c : Char} {r : List Char} (hr : c :: r <:+ s.toList) :
    invalidChar s (offsetOf s (c :: r)) =
      some (.invalid ("invalid symbol " ++ c.toString), offsetOf s r) := by
  have hslice := slice_offsetOf (s := s) (p := c :: r) (t := []) (by simpa using hr)
  simp only [List.append_nil] at hslice
  have hend : s.utf8ByteSize = offsetOf s [] := by simp [offsetOf]
  rw [invalidChar, hend, hslice]
  simp [offsetOf_cons hr]

/-- The token that starts with a character is read from its first byte as `Token.scanAt`
reads it from the character. -/
theorem tokenAt_offsetOf {c : Char} {r : List Char} (hr : c :: r <:+ s.toList) :
    tokenAt s (offsetOf s (c :: r)) (firstByte c) =
      some ((Token.scanAt c r).1, offsetOf s (Token.scanAt c r).2) := by
  have hr' := (List.suffix_cons c r).trans hr
  -- every test on the first byte is the same test on the character
  rw [tokenAt, firstByte_beq (by decide : '('.toNat < 128),
    firstByte_beq (by decide : ')'.toNat < 128), firstByte_beq (by decide : '+'.toNat < 128),
    firstByte_beq (by decide : '-'.toNat < 128), firstByte_beq (by decide : '*'.toNat < 128),
    firstByte_beq (by decide : '/'.toNat < 128), firstByte_beq (by decide : '%'.toNat < 128),
    firstByte_beq (by decide : '^'.toNat < 128), firstByte_beq (by decide : '&'.toNat < 128),
    firstByte_beq (by decide : '|'.toNat < 128), firstByte_beq (by decide : '='.toNat < 128),
    firstByte_beq (by decide : '<'.toNat < 128), firstByte_beq (by decide : '>'.toNat < 128),
    firstByte_beq (by decide : '!'.toNat < 128), firstByte_beq (by decide : '"'.toNat < 128),
    isAsciiDigit_firstByte, isAsciiAlpha_firstByte]
  by_cases hone : c = '(' ∨ c = ')' ∨ c = '+' ∨ c = '-' ∨ c = '*' ∨ c = '/' ∨ c = '%' ∨ c = '^'
  · -- brackets and one-byte operators
    rcases hone with rfl | rfl | rfl | rfl | rfl | rfl | rfl | rfl <;>
      simp only [Char.reduceBEq, Bool.false_eq_true, ↓reduceIte, Token.scanAt,
        offsetOf_cons_of_lt hr (by decide)]
  by_cases hdbl : c = '&' ∨ c = '|' ∨ c = '='
  · rcases hdbl with rfl | rfl | rfl <;>
      simp only [Char.reduceBEq, Bool.false_eq_true, ↓reduceIte, Token.scanAt] <;>
      rw [firstByte_of_lt (by decide), doubled_offsetOf (by decide) _ hr]
  by_cases heq : c = '<' ∨ c = '>' ∨ c = '!'
  · rcases heq with rfl | rfl | rfl <;>
      simp only [Char.reduceBEq, Bool.false_eq_true, ↓reduceIte, Token.scanAt,
        withEq_offsetOf (by decide) _ _ hr]
  by_cases hquote : c = '"'
  · subst hquote
    simp only [Char.reduceBEq, Bool.false_eq_true, ↓reduceIte, Token.scanAt]
    rw [offsetOf_cons_of_lt hr (by decide)]
    have hq := quotedLoop_offsetOf (s := s) "" (p := []) hr'
    rw [List.nil_append] at hq
    rw [hq]
    cases quotedBody r <;> rfl
  -- any other character: a number, a symbol, or an invalid symbol
  simp only [not_or] at hone hdbl heq
  rw [Token.scanAt.eq_16 c r hone.1 hone.2.1 hone.2.2.1 hone.2.2.2.1 hone.2.2.2.2.1
    hone.2.2.2.2.2.1 hone.2.2.2.2.2.2.1 hone.2.2.2.2.2.2.2 hdbl.1 hdbl.2.1 hdbl.2.2 heq.1
    heq.2.1 heq.2.2 hquote]
  simp only [hone.1, hone.2.1, hone.2.2.1, hone.2.2.2.1, hone.2.2.2.2.1, hone.2.2.2.2.2.1,
    hone.2.2.2.2.2.2.1, hone.2.2.2.2.2.2.2, hdbl.1, hdbl.2.1, hdbl.2.2, heq.1, heq.2.1, heq.2.2,
    hquote, beq_iff_eq, ↓reduceIte]
  by_cases hd : c.isDigit = true
  · rw [if_pos hd, if_pos hd, lexNumber_offsetOf hr hd]
  rw [if_neg hd, if_neg hd]
  by_cases ha : c.isAlpha = true
  · rw [if_pos ha, if_pos ha, symbolLoop_alpha hr ha,
      show ("" : String).push c = String.ofList [c] by simp,
      symbolLoop_offsetOf [c] hr']
    cases Token.symbolRest [c] r <;> rfl
  · rw [if_neg ha, if_neg ha, invalidChar_offsetOf hr]

/-- From the offset of every suffix of the text, the lexer reads the token that `Token.scan`
reads from the suffix, and the cursor moves to the offset of what the scan leaves. -/
theorem nextToken_offsetOf {cs : List Char} (hcs : cs <:+ s.toList) :
    nextToken s (offsetOf s cs) = some ((Token.scan cs).1, offsetOf s (Token.scan cs).2) := by
  have hb := (List.dropWhile_suffix isBlank).trans hcs
  rw [nextToken, skipWhile_whitespace hcs]
  unfold Token.scan
  cases h : cs.dropWhile isBlank with
  | nil => rw [peek_offsetOf_nil]
  | cons c r =>
    rw [h] at hb
    rw [peek_offsetOf_cons hb]
    exact tokenAt_offsetOf hb

/-- The word quoted in messages at the offset of a suffix is the suffix's first word. -/
theorem wordAt_offsetOf {r : List Char} (hr : r <:+ s.toList) :
    wordAt s (offsetOf s r) = some (firstWord r) := by
  have hslice := slice_offsetOf (s := s) (p := r) (t := []) (by simpa using hr)
  rw [List.append_nil] at hslice
  have hend : s.utf8ByteSize = offsetOf s [] := by simp [offsetOf]
  have hle : offsetOf s r ≤ s.utf8ByteSize := Nat.sub_le _ _
  rw [wordAt, Nat.min_eq_left hle, hend, hslice]
  simp

end Suffix

/-! ## Successive calls -/

theorem cursor_eq_offsetOf (s : String) (n : Nat) :
    Token.cursor s n = offsetOf s (Token.restAfter s.toList n) := by
  rw [Token.cursor, offsetOf, Lexeme.byteSize_eq_utf8Len]

/-- One call from the scanner's cursor after `n` scans reads the next scan's token and moves
to the scanner's cursor after it. -/
theorem nextToken_cursor (s : String) (n : Nat) :
    nextToken s (Token.cursor s n) =
      some ((Token.scan (Token.restAfter s.toList n)).1, Token.cursor s (n + 1)) := by
  rw [cursor_eq_offsetOf, cursor_eq_offsetOf, nextToken_offsetOf (Token.restAfter_suffix _ n)]
  rfl

/-- The lexer's cursor after `n` calls is the scanner's cursor after `n` scans. The induction
is on the number of calls, with `nextToken_cursor` as the step. -/
theorem cursorAfter_eq (s : String) (n : Nat) : cursorAfter s n = some (Token.cursor s n) := by
  induction n with
  | zero => simp [cursorAfter, Token.cursor, Token.restAfter, Token.utf8ByteSize_eq_byteSize]
  | succ n ih => rw [cursorAfter, ih, Option.bind_some, nextToken_cursor]; rfl

/-- Once a scan gives the end, the cursor stays where that scan left it. -/
theorem cursor_eq_of_endOfText {s : String} {n : Nat}
    (h : (Token.scan (Token.restAfter s.toList n)).1 = .endOfText) :
    ∀ m, n < m → Token.cursor s m = Token.cursor s (n + 1)
  | 0, hm => absurd hm (Nat.not_lt_zero n)
  | m + 1, hm => by
    rcases Nat.lt_succ_iff_lt_or_eq.1 hm with hm | rfl
    · rw [(Token.cursor_of_endOfText h hm).2, cursor_eq_of_endOfText h m hm]
    · rfl

/-- The lexer never panics and always moves. After any number of calls of `nextToken` on a new
lexer for `s`, the cursor is the scanner's cursor: at most the size of `s`, and a character
boundary. The next call does not panic and reads the token that the scanner reads, and the
word at the cursor is cut without a panic too. A call that gives any token but the end moves
the cursor by at least one byte; once a call gives the end, every later call gives the end
and leaves the cursor where it is; and the call after `s.utf8ByteSize` calls gives the end at
the latest, so a text gives at most one token more than it has bytes. -/
theorem nextToken_progress (s : String) (n : Nat) :
    ∃ i tok j, cursorAfter s n = some i ∧ nextToken s i = some (tok, j) ∧
      cursorAfter s (n + 1) = some j ∧
      i = Token.cursor s n ∧ tok = (Token.scan (Token.restAfter s.toList n)).1 ∧
      i ≤ s.utf8ByteSize ∧ isCharBoundary s i = true ∧ String.Pos.Raw.IsValid s ⟨i⟩ ∧
      wordAt s i = some (firstWord (Token.restAfter s.toList n)) ∧
      (tok ≠ .endOfText → i < j) ∧
      (tok = .endOfText → ∀ m, n < m →
        cursorAfter s m = some j ∧ nextToken s j = some (.endOfText, j)) ∧
      (s.utf8ByteSize ≤ n → tok = .endOfText) := by
  have hsuffix := Token.restAfter_suffix s.toList n
  refine ⟨_, _, _, cursorAfter_eq s n, nextToken_cursor s n, cursorAfter_eq s (n + 1), rfl, rfl,
    Token.cursor_le s n, ?_, Token.cursor_isValid s n, ?_, Token.cursor_lt_succ, ?_,
    Token.scan_restAfter_of_le⟩
  · rw [cursor_eq_offsetOf]
    exact isCharBoundary_offsetOf hsuffix
  · rw [cursor_eq_offsetOf]
    exact wordAt_offsetOf hsuffix
  · intro hend m hm
    have hstay := cursor_eq_of_endOfText hend m hm
    refine ⟨hstay ▸ cursorAfter_eq s m, ?_⟩
    rw [← hstay, nextToken_cursor, (Token.cursor_of_endOfText hend hm).1,
      (Token.cursor_of_endOfText hend hm).2]

end Lexer

end ExprLang
