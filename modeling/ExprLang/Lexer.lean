import ExprLang.Token
import ExprLang.Number.Read
import ExprLang.Text.Blank

/-!
# The lexer over bytes

The lexer holds the text and a cursor: the byte offset, in the text's UTF-8 encoding, of the
next byte to read. It reads one byte at a time (`peek`), moves on one byte at a time, and
tests bytes against ASCII classes. The text it hands out it cuts from the source between
cursor values it has had (`slice`). Cutting is the one step that can go wrong: a cut whose
ends are out of order, or not both character boundaries (which includes lying past the end),
panics. Here a panic is `none`, and every function that cuts gives `none` when a cut does.

`nextToken` skips ASCII white space and reads one token, decided by its first byte
(`tokenAt`):

* brackets and `+ - * / % ^` are one byte each;
* `&`, `|` and `=` must be doubled (`doubled`); `<`, `>` and `!` take an optional `=`
  (`withEq`);
* `"` starts a quoted string (`quotedLoop`);
* an ASCII digit starts a number (`numberEnd`, then `Number.read?` on the text cut out);
* an ASCII letter starts a symbol (`symbolLoop`), whose bracket groups are taken whole
  (`bracketLoop`);
* any other byte starts an invalid symbol: the character that starts there is decoded and
  the cursor moves past all of its bytes.

Every loop is a recursion on the bytes left. Where a loop goes on from the cursor that another
loop gives back, that the other loop never moves the cursor back (`le_skipWhile`,
`le_quotedLoop`, `le_bracketLoop`) is what makes it terminate. A bracket group inside a group
is read by the same loop with one more group open, and a quoted string inside a group by the
loop that reads a string token.

`wordAt` is the word quoted in messages: the text from an offset on (from the end when the
offset is past it), ASCII white space in front of it trimmed, up to the next ASCII white space.
Only its first cut can panic: the trimming and the search for the end stop at characters.

`ExprLang.Proofs.ByteCursor` shows that this lexer reads the tokens of `Token.scan`, from every
cursor it can reach, and never panics.
-/

namespace ExprLang

namespace Lexer

open Text (firstWord)

/-- The bytes of the text: its UTF-8 encoding. -/
def bytes (src : String) : List UInt8 :=
  src.toByteArray.data.toList

/-- ASCII white space: space, tab, line feed, form feed and carriage return. -/
def isAsciiWhitespace (b : UInt8) : Bool :=
  b == 0x20 || b == 0x09 || b == 0x0A || b == 0x0C || b == 0x0D

/-- The ASCII digits `0` to `9`. -/
def isAsciiDigit (b : UInt8) : Bool :=
  0x30 ≤ b && b ≤ 0x39

/-- The ASCII letters `A` to `Z` and `a` to `z`. -/
def isAsciiAlpha (b : UInt8) : Bool :=
  (0x41 ≤ b && b ≤ 0x5A) || (0x61 ≤ b && b ≤ 0x7A)

/-- The ASCII letters and digits. -/
def isAsciiAlphanumeric (b : UInt8) : Bool :=
  isAsciiDigit b || isAsciiAlpha b

/-- The byte at an offset, none at or past the end. -/
def peek (src : String) (i : Nat) : Option UInt8 :=
  (bytes src)[i]?

/-- Whether an offset is a character boundary: the start, the end, or an offset whose byte
starts a character, that is, is not a continuation byte `0b10xxxxxx`. -/
def isCharBoundary (src : String) (k : Nat) : Bool :=
  k == 0 ||
    match (bytes src)[k]? with
    | some b => b < 0x80 || 0xC0 ≤ b
    | none => k == (bytes src).length

/-- The text between two offsets, or `none` where the cut panics: the offsets out of order,
or not both character boundaries. -/
def slice (src : String) (a b : Nat) : Option String :=
  if a ≤ b ∧ isCharBoundary src a = true ∧ isCharBoundary src b = true then
    String.fromUTF8? ((bytes src).extract a b).toByteArray
  else none

/-- Moves the cursor on over the bytes of a class. -/
def skipWhile (src : String) (p : UInt8 → Bool) (i : Nat) : Nat :=
  match h : peek src i with
  | some b => if p b then skipWhile src p (i + 1) else i
  | none => i
termination_by (bytes src).length - i
decreasing_by
  have := (List.getElem?_eq_some_iff.1 h).1
  omega

theorem le_skipWhile (src : String) (p : UInt8 → Bool) (i : Nat) : i ≤ skipWhile src p i := by
  fun_induction skipWhile src p i with
  | case1 i b _ _ ih => omega
  | case2 | case3 => exact Nat.le_refl _

/-- A byte of the class at the cursor is passed over. -/
theorem lt_skipWhile {src : String} {p : UInt8 → Bool} {i : Nat} {b : UInt8}
    (h : peek src i = some b) (hb : p b = true) : i < skipWhile src p i := by
  rw [skipWhile, h]
  simp only [hb, if_true]
  exact Nat.lt_of_lt_of_le (Nat.lt_succ_self i) (le_skipWhile src p (i + 1))

/-- The offset after an optional exponent sign at `i`. -/
def signEnd (src : String) (i : Nat) : Nat :=
  if peek src i == some '+'.toUInt8 || peek src i == some '-'.toUInt8 then i + 1 else i

theorem le_signEnd (src : String) (i : Nat) : i ≤ signEnd src i := by
  unfold signEnd
  split <;> omega

/-- The end of a number: ASCII digits, one `.` before any exponent, and one exponent mark `e` or
`E` with an optional sign and the digits after it. The text is not checked here: `1e` ends
after the `e`, and reading it refuses it. -/
def numberEnd (src : String) (seenDot seenExp : Bool) (i : Nat) : Nat :=
  match h : peek src i with
  | some b =>
    if isAsciiDigit b then numberEnd src seenDot seenExp (i + 1)
    else if b == '.'.toUInt8 && !seenDot && !seenExp then numberEnd src true seenExp (i + 1)
    else if (b == 'e'.toUInt8 || b == 'E'.toUInt8) && !seenExp then
      numberEnd src seenDot true (skipWhile src isAsciiDigit (signEnd src (i + 1)))
    else i
  | none => i
termination_by (bytes src).length - i
decreasing_by
  all_goals have := (List.getElem?_eq_some_iff.1 h).1
  · omega
  · omega
  · have := le_signEnd src (i + 1)
    have := le_skipWhile src isAsciiDigit (signEnd src (i + 1))
    omega

/-- The message of a text that does not read as a number. -/
def floatError (s : String) : String :=
  if s.isEmpty then "cannot parse float from empty string" else "invalid float literal"

/-- A number token from its first digit: the text up to the end of the number, cut out and
read. -/
def lexNumber (src : String) (start : Nat) : Option (Token × Nat) :=
  let i := numberEnd src false false start
  (slice src start i).map fun s =>
    match Number.read? s with
    | some x => (.number x, i)
    | none => (.invalid ("invalid number '" ++ s ++ "': " ++ floatError s), i)

/-- The body of a quoted string after its opening quote. `out` is the body so far and `seg`
the offset where the text not yet copied into it starts: that text is cut out and copied at
an escape and at the closing quote. `\"` and `\\` stand for a quote and a backslash; a
backslash before anything else stands for itself, and the byte after it is read as usual.
Gives the body, or `unmatched quote` when the text ends first, with the cursor after it. -/
def quotedLoop (src : String) (out : String) (seg i : Nat) :
    Option (Except String String × Nat) :=
  match h : peek src i with
  | none => some (.error "unmatched quote", i)
  | some b =>
    if b == '"'.toUInt8 then
      (slice src seg i).map fun piece => (.ok (out ++ piece), i + 1)
    else if b == '\\'.toUInt8 then
      match slice src seg i with
      | none => none
      | some piece =>
        match peek src (i + 1) with
        | some e =>
          if e == '"'.toUInt8 || e == '\\'.toUInt8 then
            quotedLoop src ((out ++ piece).push (Char.ofUInt8 e)) (i + 2) (i + 2)
          else quotedLoop src ((out ++ piece).push '\\') (i + 1) (i + 1)
        | none => quotedLoop src ((out ++ piece).push '\\') (i + 1) (i + 1)
    else quotedLoop src out seg (i + 1)
termination_by (bytes src).length - i
decreasing_by
  all_goals have := (List.getElem?_eq_some_iff.1 h).1
  all_goals omega

theorem le_quotedLoop {src out : String} {seg i j : Nat} {r : Except String String}
    (h : quotedLoop src out seg i = some (r, j)) : i ≤ j := by
  fun_induction quotedLoop src out seg i with
  | case1 => simp only [Option.some.injEq, Prod.mk.injEq] at h; omega
  | case2 =>
    rcases Option.map_eq_some_iff.1 h with ⟨_, -, he⟩
    simp only [Prod.mk.injEq] at he
    omega
  | case3 => simp at h
  | case4 | case5 | case6 | case7 =>
    rename_i ih
    have := ih h
    omega

/-- The rest of a bracket group after its opening bracket. `depth` counts the brackets
opened inside the group and not yet closed; a quoted string inside is read by `quotedLoop`,
so brackets in it do not count. Gives the cursor after the bracket that closes the group,
or, with the cursor where the text ended, the message of what it ended inside:
`unmatched parentheses`, or `unmatched quote`. -/
def bracketLoop (src : String) (depth i : Nat) : Option (Except String Unit × Nat) :=
  match h : peek src i with
  | none => some (.error "unmatched parentheses", i)
  | some b =>
    if b == ')'.toUInt8 then
      match depth with
      | 0 => some (.ok (), i + 1)
      | d + 1 => bracketLoop src d (i + 1)
    else if b == '"'.toUInt8 then
      match _hq : quotedLoop src "" (i + 1) (i + 1) with
      | none => none
      | some (.error m, j) => some (.error m, j)
      | some (.ok _, j) => bracketLoop src depth j
    else if b == '('.toUInt8 then bracketLoop src (depth + 1) (i + 1)
    else bracketLoop src depth (i + 1)
termination_by (bytes src).length - i
decreasing_by
  all_goals have := (List.getElem?_eq_some_iff.1 h).1
  · omega
  · have := le_quotedLoop _hq
    omega
  · omega
  · omega

theorem le_bracketLoop {src : String} {depth i j : Nat} {r : Except String Unit}
    (h : bracketLoop src depth i = some (r, j)) : i ≤ j := by
  fun_induction bracketLoop src depth i with
  | case1 | case2 => simp only [Option.some.injEq, Prod.mk.injEq] at h; omega
  | case3 | case7 | case8 =>
    rename_i ih
    have := ih h
    omega
  | case4 => simp at h
  | case5 =>
    rename_i hq
    simp only [Option.some.injEq, Prod.mk.injEq] at h
    have := le_quotedLoop hq
    omega
  | case6 =>
    rename_i hq ih
    have := le_quotedLoop hq
    have := ih h
    omega

/-- Whether a symbol goes on at an offset: it does where an ASCII letter or a `.` stands. -/
def goesOn (src : String) (i : Nat) : Bool :=
  match peek src i with
  | some b => isAsciiAlpha b || b == '.'.toUInt8
  | none => false

/-- The rest of a symbol from the start of a round; `text` is the symbol so far. A round takes
a run of ASCII letters and digits and skips ASCII white space. Then a `.` is taken and a new
round follows; a bracket group is taken whole; and the symbol goes on only if an ASCII letter
or a `.` follows. The words `true` and `false` are booleans. -/
def symbolLoop (src : String) (text : String) (i : Nat) : Option (Token × Nat) :=
  let j := skipWhile src isAsciiAlphanumeric i
  match slice src i j with
  | none => none
  | some run =>
    let k := skipWhile src isAsciiWhitespace j
    match _hk : peek src k with
    | some b =>
      if b == '.'.toUInt8 then symbolLoop src (text ++ run ++ ".") (k + 1)
      else if b == '('.toUInt8 then
        match _hg : bracketLoop src 0 (k + 1) with
        | none => none
        | some (.error m, l) => some (.invalid m, l)
        | some (.ok (), l) =>
          match slice src k l with
          | none => none
          | some g =>
            if goesOn src l then symbolLoop src (text ++ run ++ g) l
            else some (Token.ofWord (text ++ run ++ g), l)
      else if _hgo : goesOn src k then symbolLoop src (text ++ run) k
      else some (Token.ofWord (text ++ run), k)
    | none => some (Token.ofWord (text ++ run), k)
termination_by (bytes src).length - i
decreasing_by
  all_goals
    have hk' : k < (bytes src).length := (List.getElem?_eq_some_iff.1 _hk).1
    have hij : i ≤ j := le_skipWhile src isAsciiAlphanumeric i
    have hjk : j ≤ k := le_skipWhile src isAsciiWhitespace j
  · show (bytes src).length - (k + 1) < (bytes src).length - i
    omega
  · have := le_bracketLoop _hg
    omega
  · -- the round took a letter before the white space, so the cursor has moved
    rename_i hdot hparen
    show (bytes src).length - k < (bytes src).length - i
    have halpha : isAsciiAlpha b = true := by
      simp only [goesOn, _hk, Bool.or_eq_true] at _hgo
      exact _hgo.resolve_right hdot
    have hmoved : i < k := by
      refine Nat.lt_of_le_of_ne (Nat.le_trans hij hjk) fun he => ?_
      rw [← he] at _hk
      have : i < j := lt_skipWhile _hk (by simp [isAsciiAlphanumeric, halpha])
      omega
    omega

/-- Where `&`, `|` or `=` stands: the operator when the same byte follows, an invalid token
of one byte otherwise. -/
def doubled (src : String) (c : UInt8) (o : Operator) (i : Nat) : Token × Nat :=
  if peek src (i + 1) == some c then (.op o, i + 2)
  else
    let c := Char.ofUInt8 c
    (.invalid ("operator '" ++ c.toString ++ "' not understandable, do you mean '" ++
      c.toString ++ c.toString ++ "' ?"), i + 1)

/-- Where `<`, `>` or `!` stands: the operator with `=` when a `=` follows. -/
def withEq (src : String) (single double : Operator) (i : Nat) : Token × Nat :=
  if peek src (i + 1) == some '='.toUInt8 then (.op double, i + 2) else (.op single, i + 1)

/-- An invalid symbol: the character that starts at the cursor, decoded from the text from
the cursor on, and the cursor moved past its bytes. -/
def invalidChar (src : String) (i : Nat) : Option (Token × Nat) :=
  (slice src i src.utf8ByteSize).map fun rest =>
    let c := rest.toList.headD '?'
    (.invalid ("invalid symbol " ++ c.toString), i + c.utf8Size)

/-- The token whose first byte `b` stands at the cursor `i`, and the cursor after it. -/
def tokenAt (src : String) (i : Nat) (b : UInt8) : Option (Token × Nat) :=
  if b == '('.toUInt8 then some (.openParen, i + 1)
  else if b == ')'.toUInt8 then some (.closeParen, i + 1)
  else if b == '+'.toUInt8 then some (.op .plus, i + 1)
  else if b == '-'.toUInt8 then some (.op .minus, i + 1)
  else if b == '*'.toUInt8 then some (.op .times, i + 1)
  else if b == '/'.toUInt8 then some (.op .divide, i + 1)
  else if b == '%'.toUInt8 then some (.op .modulo, i + 1)
  else if b == '^'.toUInt8 then some (.op .power, i + 1)
  else if b == '&'.toUInt8 then some (doubled src b .logicalAnd i)
  else if b == '|'.toUInt8 then some (doubled src b .logicalOr i)
  else if b == '='.toUInt8 then some (doubled src b .eq i)
  else if b == '<'.toUInt8 then some (withEq src .lt .le i)
  else if b == '>'.toUInt8 then some (withEq src .gt .ge i)
  else if b == '!'.toUInt8 then some (withEq src .logicalNot .ne i)
  else if b == '"'.toUInt8 then
    (quotedLoop src "" (i + 1) (i + 1)).map fun (r, j) =>
      match r with
      | .ok body => (.string body, j)
      | .error m => (.invalid m, j)
  else if isAsciiDigit b then lexNumber src i
  else if isAsciiAlpha b then symbolLoop src "" i
  else invalidChar src i

/-- One token from the cursor on, ASCII white space in front of it skipped, and the cursor
after it; `none` where a cut panics. At the end of the text the token is the end, and the
cursor stays. -/
def nextToken (src : String) (i : Nat) : Option (Token × Nat) :=
  let i := skipWhile src isAsciiWhitespace i
  match peek src i with
  | none => some (.endOfText, i)
  | some b => tokenAt src i b

/-- The cursor after `n` calls of `nextToken` from the start of the text, or `none` where one
of them panicked. -/
def cursorAfter (src : String) : Nat → Option Nat
  | 0 => some 0
  | n + 1 => (cursorAfter src n).bind fun i => (nextToken src i).map Prod.snd

/-- The word quoted in messages for an offset: the text from the offset on, or from the end
when the offset is past it, with ASCII white space in front trimmed, up to the next ASCII
white space; `none` where the cut panics. -/
def wordAt (src : String) (pos : Nat) : Option String :=
  (slice src (min pos src.utf8ByteSize) src.utf8ByteSize).map fun rest => firstWord rest.toList

end Lexer

end ExprLang
