import ExprLang.Token.Scan

/-!
# Lexemes

A lexeme is a token with its place in the text: the byte offset where scanning for it began
(before the blanks in front of it), the byte offset just after it, the text from the first
offset on and the text after the token. Offsets count UTF-8 bytes.

`Lexeme.ofText` scans a whole text into lexemes, up to and including the first final token
(the end, or an invalid token). It is total: `Token.scan_rest_length` shows that every token
that is not final consumes text.

Two words are read off a lexeme for messages: `upcoming`, the first word after the token,
and `word`, the first word from where scanning for the token began, which is the token's own
first word.
-/

namespace ExprLang

/-- A token with its place in the text. -/
structure Lexeme where
  token : Token
  /-- The byte offset where scanning for the token began, before any blanks. -/
  start : Nat
  /-- The byte offset just after the token. -/
  stop : Nat
  /-- The text from `start` on. -/
  source : List Char
  /-- The text after the token, from `stop` on. -/
  rest : List Char
deriving Inhabited

namespace Lexeme

/-- The number of UTF-8 bytes of a text. -/
def byteSize (cs : List Char) : Nat :=
  cs.foldr (fun c n => c.utf8Size + n) 0

/-- The first word after the token. -/
def upcoming (l : Lexeme) : String :=
  Text.firstWord l.rest

/-- The first word from where scanning for the token began. -/
def word (l : Lexeme) : String :=
  Text.firstWord l.source

/-- Scans the text `cs`, which starts at byte offset `pos`, up to and including the first
final token. -/
def scanFrom (cs : List Char) (pos : Nat) : List Lexeme :=
  let step := Token.scan cs
  let stop := pos + byteSize (cs.take (cs.length - step.2.length))
  let l : Lexeme := ⟨step.1, pos, stop, cs, step.2⟩
  if _h : step.1.isFinal then [l] else l :: scanFrom step.2 stop
termination_by cs.length
decreasing_by exact Token.scan_rest_length cs (by simpa using _h)

/-- The lexemes of a whole text, up to and including the first final token. -/
def ofText (s : String) : List Lexeme :=
  scanFrom s.toList 0

end Lexeme

end ExprLang
