import ExprLang.Text.Extending
import ExprLang.Text.Invisible

/-!
# Quoted text in log lines

Log lines show texts between double quotes, with every character that would not read well
written as an escape:

* the NUL, tab, carriage return and line feed as `\0`, `\t`, `\r`, `\n`;
* the backslash and the double quote with a backslash before them;
* the characters that extend the character before them (`extendsPrevious`), which would
  otherwise merge with the quote or the escape in front of them, and the characters that do
  not print (`printable`), as `\u{h}` with the code point in lowercase hexadecimal.

Everything else, the single quote included, stands for itself.
-/

namespace ExprLang.Text

/-- The code point in lowercase hexadecimal, without leading zeros. -/
def hexDigits (n : Nat) : String :=
  String.ofList (Nat.toDigits 16 n)

/-- How one character is written between the quotes of a log line. -/
def escapeChar (c : Char) : String :=
  match c with
  | '\x00' => "\\0"
  | '\t' => "\\t"
  | '\r' => "\\r"
  | '\n' => "\\n"
  | '\\' => "\\\\"
  | '"' => "\\\""
  | c =>
    if extendsPrevious c || !printable c then "\\u\x7b" ++ hexDigits c.toNat ++ "\x7d"
    else c.toString

/-- A text between double quotes, every character written by `escapeChar`. -/
def quote (s : String) : String :=
  "\"" ++ String.join (s.toList.map escapeChar) ++ "\""

end ExprLang.Text
