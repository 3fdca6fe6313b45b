/-!
# Blanks and white space

Two different classes of characters separate things in this library, and they must not be
confused:

* `isBlank` — the five ASCII blanks (space, tab, line feed, form feed, carriage return).
  They separate tokens and delimit the *words* quoted in syntax errors. The vertical tab and
  every non-ASCII space are not blanks: the scanner reports them as invalid symbols.
* `isWhiteSpace` — the 25 characters of the Unicode `White_Space` property. Only the
  whole-text tests use them: an expression text made of white space alone is no expression,
  and a value typed on the command line is trimmed of white space before it is read as a
  number.

Every blank is white space (`isWhiteSpace_of_isBlank`).
-/

namespace ExprLang.Text

/-- Space, tab, line feed, form feed and carriage return. -/
def isBlank (c : Char) : Bool :=
  c == ' ' || c == '\t' || c == '\n' || c == '\x0c' || c == '\r'

/-- The Unicode `White_Space` property: the controls U+0009 to U+000D, the space, U+0085,
the no-break space U+00A0, U+1680, the spaces U+2000 to U+200A, the line and paragraph
separators U+2028 and U+2029, U+202F, U+205F and the ideographic space U+3000. -/
def isWhiteSpace (c : Char) : Bool :=
  let n := c.toNat
  (0x9 ≤ n && n ≤ 0xD) || n == 0x20 || n == 0x85 || n == 0xA0 || n == 0x1680 ||
    (0x2000 ≤ n && n ≤ 0x200A) || n == 0x2028 || n == 0x2029 || n == 0x202F ||
    n == 0x205F || n == 0x3000

theorem isWhiteSpace_of_isBlank (c : Char) (h : isBlank c = true) : isWhiteSpace c = true := by
  simp only [isBlank, Bool.or_eq_true, beq_iff_eq] at h
  rcases h with (((h | h) | h) | h) | h <;> subst h <;> decide

/-- The text with white space removed from both ends. -/
def trimWhiteSpace (s : String) : String :=
  String.ofList ((s.toList.dropWhile isWhiteSpace).reverse.dropWhile isWhiteSpace).reverse

/-- The first word of a text: its leading blanks skipped, then everything up to the next
blank or the end. -/
def firstWord (cs : List Char) : String :=
  String.ofList ((cs.dropWhile isBlank).takeWhile fun c => !isBlank c)

end ExprLang.Text
