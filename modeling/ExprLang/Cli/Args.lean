import ExprLang.Expression
import ExprLang.Number.Read
import ExprLang.Text.Blank

/-!
# Command-line arguments

The command line declares an optional expression and these options:

* `-s`, `--symbols` — print the free symbols instead of evaluating;
* `--set NAME=VALUE` — bind a symbol, any number of times, each value read by `readBinding`;
* `--max-depth N` — the nesting limit (default 128);
* `-v`, `--verbose` — log to standard error, more with each repetition;
* `-h`, `--help` and `-V`, `--version`.

Reading the argument list is the work of the argument parser the program is built on, not of
the program: it hands over the `Options` to run with, or stops with help, the version or an
argument error (`Stop`). A run therefore takes the parser as a parameter (`Cli.run`), and what
the program relies on is the parser's contract for the declared arguments (`Options.Parsed`):
every `--set` value has gone through the value parser declared for it, `readBinding`.
-/

namespace ExprLang.Cli

/-- The name of the program in its messages. -/
def programName : String := "ariadne-expr"

/-- The version of the program. -/
def programVersion : String := "0.1.0"

/-- The help text. -/
def helpText : String :=
  "A small embeddable expression language: parse once, bind symbols, evaluate to a typed value\n\n" ++
  "Usage: " ++ programName ++ " [OPTIONS] [EXPRESSION]\n\n" ++
  "Arguments:\n" ++
  "  [EXPRESSION]  The expression. Read from the first line of stdin when omitted\n\n" ++
  "Options:\n" ++
  "  -s, --symbols                Only print the free symbols of the expression, one per line\n" ++
  "      --set <NAME=VALUE>       Binds a symbol without prompting. May be repeated\n" ++
  "      --max-depth <MAX_DEPTH>  Deepest bracket / unary nesting the parser accepts [default: 128]\n" ++
  "  -v, --verbose...             Log to stderr; repeat for more detail\n" ++
  "  -h, --help                   Print help\n" ++
  "  -V, --version                Print version\n"


/-- What the arguments ask for when they ask to run. -/
structure Options where
  symbolsOnly : Bool := false
  bindings : List Parameter := []
  limit : Nat := defaultLimit
  verbosity : Nat := 0
  expression : Option String := none
deriving Inhabited

/-- How reading the arguments ends when it does not end in options to run with. -/
inductive Stop where
  | help
  | version
  /-- An argument error, with the whole text for standard error. -/
  | refused (text : String)

/-- A value typed for a symbol: a number when the text trimmed of white space reads as one,
otherwise the text itself, untrimmed. -/
def readParam (text : String) : Param :=
  match Number.read? (Text.trimWhiteSpace text) with
  | some x => .real x
  | none => .text text

/-- A binding `NAME=VALUE`: split at the first `=`, the name trimmed of white space and not
empty. -/
def readBinding (s : String) : Except String Parameter :=
  match s.toList.span (· != '=') with
  | (name, '=' :: value) =>
    let name := Text.trimWhiteSpace (String.ofList name)
    if name.isEmpty then .error ("expected NAME=VALUE, got '" ++ s ++ "'")
    else .ok { name, value := readParam (String.ofList value) }
  | _ => .error ("expected NAME=VALUE, got '" ++ s ++ "'")

/-- What the argument parser promises of the options it hands over: every `--set` binding is
what `readBinding`, the value parser declared for `--set`, made of some argument. -/
def Options.Parsed (o : Options) : Prop :=
  ∀ p ∈ o.bindings, ∃ s, readBinding s = .ok p

end ExprLang.Cli
