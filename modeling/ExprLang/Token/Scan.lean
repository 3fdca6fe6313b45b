import ExprLang.Token
import ExprLang.Number.Read
import ExprLang.Text.Blank

/-!
# Scanning tokens

`Token.scan` reads one token from the front of a text and returns it with the text after it.
Blanks (`Text.isBlank`) before the token are skipped. The token is decided by its first
character:

* brackets and the one-character operators `+ - * / % ^` stand for themselves;
* `&`, `|` and `=` must be doubled (`&&`, `||`, `==`); a single one is invalid, and only that
  one character is consumed;
* `<`, `>` and `!` take an optional `=`;
* `"` starts a quoted string (`quotedBody`);
* a digit starts a number (`numberText`, then `Number.read?`);
* an ASCII letter starts a symbol (`symbolRest`): runs of letters and digits, joined across
  blanks, `.` and bracket groups (`group`) that are kept verbatim; the words `true` and
  `false` are booleans;
* any other character is an invalid symbol, and the whole character is consumed.

Main statement: `scan_rest_length` — every token that is not final consumes text, so
scanning a whole text (`ExprLang.Token.Lexeme`) terminates.
-/

namespace ExprLang.Token

open Text (isBlank)

/-- The body of a quoted string after its opening quote, up to its closing quote: `\"` stands
for a quote and `\\` for a backslash; a backslash before anything else stands for itself and
the character after it is read as usual. Gives the body and the text after the closing quote,
or nothing when the text ends first. -/
def quotedBody : List Char → Option (List Char × List Char)
  | [] => none
  | '"' :: r => some ([], r)
  | '\\' :: '"' :: r => (quotedBody r).map fun (b, t) => ('"' :: b, t)
  | '\\' :: '\\' :: r => (quotedBody r).map fun (b, t) => ('\\' :: b, t)
  | c :: r => (quotedBody r).map fun (b, t) => (c :: b, t)

/-- Puts `c` in front of the text of a scanned group. -/
def keep (c : Char) : Except String (List Char × List Char) → Except String (List Char × List Char) :=
  Except.map fun (g, t) => (c :: g, t)

/-- The rest of a bracket group after its opening bracket, verbatim, up to and including the
bracket that closes it. `depth` counts the brackets opened inside the group and not yet
closed, and `inQuote` says whether a quoted string is open: brackets inside quotes do not
count, and quotes honour `\"` and `\\` as `quotedBody` does. Gives the group text and the
text after it, or a message when the text ends first: `unmatched quote` inside a quoted
string, `unmatched parentheses` elsewhere. -/
def group : Nat → Bool → List Char → Except String (List Char × List Char)
  | _, true, [] => .error "unmatched quote"
  | _, false, [] => .error "unmatched parentheses"
  | d, true, '"' :: r => keep '"' (group d false r)
  | d, true, '\\' :: '"' :: r => keep '\\' (keep '"' (group d true r))
  | d, true, '\\' :: '\\' :: r => keep '\\' (keep '\\' (group d true r))
  | d, true, c :: r => keep c (group d true r)
  | 0, false, ')' :: r => .ok ([')'], r)
  | d + 1, false, ')' :: r => keep ')' (group d false r)
  | d, false, '(' :: r => keep '(' (group (d + 1) false r)
  | d, false, '"' :: r => keep '"' (group d true r)
  | d, false, c :: r => keep c (group d false r)

theorem length_dropWhile_le (p : Char → Bool) (l : List Char) :
    (l.dropWhile p).length ≤ l.length :=
  (List.dropWhile_suffix p).length_le

theorem quotedBody_rest_length {cs b t : List Char} (h : quotedBody cs = some (b, t)) :
    t.length < cs.length := by
  fun_induction quotedBody cs generalizing b t with
  | case1 => simp at h
  | case2 r => simp at h; obtain ⟨-, rfl⟩ := h; simp
  | case3 r ih =>
    obtain ⟨⟨b', t'⟩, h', he⟩ := Option.map_eq_some_iff.1 h
    simp at he; obtain ⟨-, rfl⟩ := he; have := ih h'; simp; omega
  | case4 r ih =>
    obtain ⟨⟨b', t'⟩, h', he⟩ := Option.map_eq_some_iff.1 h
    simp at he; obtain ⟨-, rfl⟩ := he; have := ih h'; simp; omega
  | case5 c r _ _ _ ih =>
    obtain ⟨⟨b', t'⟩, h', he⟩ := Option.map_eq_some_iff.1 h
    simp at he; obtain ⟨-, rfl⟩ := he; have := ih h'; simp; omega

theorem keep_ok {c : Char} {e : Except String (List Char × List Char)} {g t : List Char}
    (h : keep c e = .ok (g, t)) : ∃ g', e = .ok (g', t) := by
  cases e with
  | error m => simp [keep, Except.map] at h
  | ok p => obtain ⟨g', t'⟩ := p; simp [keep, Except.map] at h; exact ⟨g', by simp [h.2]⟩

theorem group_rest_length {d : Nat} {q : Bool} {cs g t : List Char}
    (h : group d q cs = .ok (g, t)) : t.length < cs.length := by
  fun_induction group d q cs generalizing g t with
  | case1 => simp at h
  | case2 => simp at h
  | case3 _ r ih => obtain ⟨_, h'⟩ := keep_ok h; have := ih h'; simp; omega
  | case4 _ r ih =>
    obtain ⟨_, h'⟩ := keep_ok h; obtain ⟨_, h''⟩ := keep_ok h'; have := ih h''; simp; omega
  | case5 _ r ih =>
    obtain ⟨_, h'⟩ := keep_ok h; obtain ⟨_, h''⟩ := keep_ok h'; have := ih h''; simp; omega
  | case6 _ c r _ _ _ ih => obtain ⟨_, h'⟩ := keep_ok h; have := ih h'; simp; omega
  | case7 r => simp at h; obtain ⟨-, rfl⟩ := h; simp
  | case8 _ r ih => obtain ⟨_, h'⟩ := keep_ok h; have := ih h'; simp; omega
  | case9 _ r ih => obtain ⟨_, h'⟩ := keep_ok h; have := ih h'; simp; omega
  | case10 _ r ih => obtain ⟨_, h'⟩ := keep_ok h; have := ih h'; simp; omega
  | case11 _ c r _ _ _ _ ih => obtain ⟨_, h'⟩ := keep_ok h; have := ih h'; simp; omega

/-- Whether a symbol goes on after a bracket group: it does when an ASCII letter or a `.`
follows. -/
def continuesSymbol : List Char → Bool
  | c :: _ => c.isAlpha || c == '.'
  | [] => false

/-- The rest of a symbol. `acc` is the symbol text so far and `cs` the text after it. One
round takes a run of ASCII letters and digits and skips blanks; then a `.` joins the next
round, a bracket group is taken whole, and the symbol goes on only if an ASCII letter or a
`.` follows. Gives the symbol text and the text after it, or the message of an unclosed
group. -/
def symbolRest (acc cs : List Char) : Except String (List Char × List Char) :=
  match _hr : (cs.dropWhile Char.isAlphanum).dropWhile isBlank with
  | '.' :: r => symbolRest (acc ++ cs.takeWhile Char.isAlphanum ++ ['.']) r
  | '(' :: r =>
    match _hg : group 0 false r with
    | .error m => .error m
    | .ok (g, t) =>
      let acc := acc ++ cs.takeWhile Char.isAlphanum ++ '(' :: g
      if continuesSymbol t then symbolRest acc t else .ok (acc, t)
  | c :: r =>
    if c.isAlpha then symbolRest (acc ++ cs.takeWhile Char.isAlphanum ++ [c]) r
    else .ok (acc ++ cs.takeWhile Char.isAlphanum, c :: r)
  | [] => .ok (acc ++ cs.takeWhile Char.isAlphanum, [])
termination_by cs.length
decreasing_by
  all_goals
    have h1 := length_dropWhile_le isBlank (cs.dropWhile Char.isAlphanum)
    have h2 := length_dropWhile_le Char.isAlphanum cs
    have h3 := congrArg List.length _hr
    simp only [List.length_cons] at h3
  · omega
  · have := group_rest_length _hg; omega
  · omega

theorem afterRun_length_le (cs : List Char) :
    ((cs.dropWhile Char.isAlphanum).dropWhile isBlank).length ≤ cs.length :=
  Nat.le_trans (length_dropWhile_le _ _) (length_dropWhile_le _ _)

theorem symbolRest_rest_length {acc cs s t : List Char} (h : symbolRest acc cs = .ok (s, t)) :
    t.length ≤ cs.length := by
  fun_induction symbolRest acc cs generalizing s t with
  | case1 _ cs r hr ih =>
    have h1 := ih h
    have h2 := congrArg List.length hr
    have h3 := afterRun_length_le cs
    simp only [List.length_cons] at h2
    omega
  | case2 => simp at h
  | case3 =>
    rename_i cs r hr g t' hg _ _ ih
    have h1 := ih h
    have h2 := congrArg List.length hr
    have h3 := afterRun_length_le cs
    have h4 := group_rest_length hg
    simp only [List.length_cons] at h2
    omega
  | case4 =>
    rename_i cs r hr g t' hg _ _
    simp only [Except.ok.injEq, Prod.mk.injEq] at h
    obtain ⟨-, rfl⟩ := h
    have h2 := congrArg List.length hr
    have h3 := afterRun_length_le cs
    have h4 := group_rest_length hg
    simp only [List.length_cons] at h2
    omega
  | case5 _ cs c r _ _ hr _ ih =>
    have h1 := ih h
    have h2 := congrArg List.length hr
    have h3 := afterRun_length_le cs
    simp only [List.length_cons] at h2
    omega
  | case6 _ cs c r _ _ hr _ =>
    simp only [Except.ok.injEq, Prod.mk.injEq] at h
    obtain ⟨-, rfl⟩ := h
    have h2 := congrArg List.length hr
    have h3 := afterRun_length_le cs
    omega
  | case7 =>
    simp only [Except.ok.injEq, Prod.mk.injEq] at h
    obtain ⟨-, rfl⟩ := h
    simp

/-- An optional exponent sign and the text after it. -/
def signPart : List Char → List Char × List Char
  | c :: r => if c = '+' ∨ c = '-' then ([c], r) else ([], c :: r)
  | [] => ([], [])

/-- An optional `.` with the digits after it, and the text after them. -/
def fractionPart : List Char → List Char × List Char
  | '.' :: r => ('.' :: r.takeWhile Char.isDigit, r.dropWhile Char.isDigit)
  | r => ([], r)

/-- An optional exponent mark `e` or `E` with an optional sign and the digits after it, and
the text after them. -/
def exponentPart : List Char → List Char × List Char
  | c :: r =>
    if c = 'e' ∨ c = 'E' then
      let (sign, r) := signPart r
      (c :: sign ++ r.takeWhile Char.isDigit, r.dropWhile Char.isDigit)
    else ([], c :: r)
  | [] => ([], [])

/-- The text of a number token and the text after it: digits, then at most one `.` with the
digits after it, then at most one exponent part. The text is not checked here: `1e` is taken
whole and refused when it is read. -/
def numberText (cs : List Char) : List Char × List Char :=
  let (frac, r) := fractionPart (cs.dropWhile Char.isDigit)
  let (expo, r) := exponentPart r
  (cs.takeWhile Char.isDigit ++ frac ++ expo, r)

/-- The token for the text of a number: its value, or an invalid token when the text does not
read as a number. -/
def numberToken (text : List Char) : Token :=
  match Number.read? (String.ofList text) with
  | some x => .number x
  | none => .invalid ("invalid number '" ++ String.ofList text ++ "': invalid float literal")

/-- An operator written as one character twice (`&&`, `||`, `==`), after the first one: the
second must follow, or the single character is an invalid token. -/
def doubled (c : Char) (o : Operator) : List Char → Token × List Char
  | d :: r =>
    if d = c then (.op o, r)
    else (.invalid ("operator '" ++ c.toString ++ "' not understandable, do you mean '" ++
      c.toString ++ c.toString ++ "' ?"), d :: r)
  | [] => (.invalid ("operator '" ++ c.toString ++ "' not understandable, do you mean '" ++
      c.toString ++ c.toString ++ "' ?"), [])

/-- An operator with an optional `=` after its first character (`<` and `<=`). -/
def withEq (single double : Operator) : List Char → Token × List Char
  | '=' :: r => (.op double, r)
  | r => (.op single, r)

/-- The token that starts with the character `c`, followed by the text `r`, and the text
after the token. -/
def scanAt (c : Char) (r : List Char) : Token × List Char :=
  match c with
  | '(' => (.openParen, r)
  | ')' => (.closeParen, r)
  | '+' => (.op .plus, r)
  | '-' => (.op .minus, r)
  | '*' => (.op .times, r)
  | '/' => (.op .divide, r)
  | '%' => (.op .modulo, r)
  | '^' => (.op .power, r)
  | '&' => doubled '&' .logicalAnd r
  | '|' => doubled '|' .logicalOr r
  | '=' => doubled '=' .eq r
  | '<' => withEq .lt .le r
  | '>' => withEq .gt .ge r
  | '!' => withEq .logicalNot .ne r
  | '"' =>
    match quotedBody r with
    | some (b, t) => (.string (String.ofList b), t)
    | none => (.invalid "unmatched quote", [])
  | c =>
    if c.isDigit then
      let (text, t) := numberText (c :: r)
      (numberToken text, t)
    else if c.isAlpha then
      match symbolRest [c] r with
      | .ok (s, t) => (ofWord (String.ofList s), t)
      | .error m => (.invalid m, [])
    else (.invalid ("invalid symbol " ++ c.toString), r)

/-- One token from the front of a text, blanks before it skipped, and the text after it. -/
def scan (cs : List Char) : Token × List Char :=
  match cs.dropWhile isBlank with
  | [] => (.endOfText, [])
  | c :: r => scanAt c r

theorem signPart_rest_length (cs : List Char) : (signPart cs).2.length ≤ cs.length := by
  unfold signPart; split
  · split <;> simp
  · simp

theorem exponentPart_rest_length (cs : List Char) : (exponentPart cs).2.length ≤ cs.length := by
  unfold exponentPart; split
  · rename_i c r
    split
    · have h1 := signPart_rest_length r
      have h2 := length_dropWhile_le Char.isDigit (signPart r).2
      simp only [List.length_cons]; omega
    · simp
  · simp

theorem fractionPart_rest_length (cs : List Char) : (fractionPart cs).2.length ≤ cs.length := by
  unfold fractionPart; split
  · rename_i r
    have := length_dropWhile_le Char.isDigit r
    simp only [List.length_cons]; omega
  · simp

theorem numberText_rest_length {c : Char} (r : List Char) (h : c.isDigit = true) :
    (numberText (c :: r)).2.length ≤ r.length := by
  have h1 := exponentPart_rest_length (fractionPart ((c :: r).dropWhile Char.isDigit)).2
  have h2 := fractionPart_rest_length ((c :: r).dropWhile Char.isDigit)
  have h3 := length_dropWhile_le Char.isDigit r
  rw [List.dropWhile_cons_of_pos h] at h1 h2
  simp only [numberText, List.dropWhile_cons_of_pos h]
  omega

theorem doubled_rest_length (c : Char) (o : Operator) (r : List Char) :
    (doubled c o r).2.length ≤ r.length := by
  unfold doubled; split
  · split <;> simp
  · simp

theorem withEq_rest_length (a b : Operator) (r : List Char) :
    (withEq a b r).2.length ≤ r.length := by
  unfold withEq; split <;> simp

theorem scanAt_rest_length (c : Char) (r : List Char) : (scanAt c r).2.length ≤ r.length := by
  unfold scanAt
  split
  case h_15 =>
    split
    · rename_i b t h; exact Nat.le_of_lt (quotedBody_rest_length h)
    · simp
  case h_16 =>
    split
    · exact numberText_rest_length r (by assumption)
    · split
      · split
        · rename_i s t h; exact symbolRest_rest_length h
        · simp
      · exact Nat.le_refl _
  all_goals simp [doubled_rest_length, withEq_rest_length]

/-- Every token that is not final consumes text. -/
theorem scan_rest_length (cs : List Char) (h : (scan cs).1.isFinal = false) :
    (scan cs).2.length < cs.length := by
  have hb := length_dropWhile_le isBlank cs
  unfold scan at *
  split at *
  · simp [isFinal] at h
  · rename_i c r hc
    have := scanAt_rest_length c r
    rw [hc] at hb
    simp only [List.length_cons] at hb
    omega

end ExprLang.Token
