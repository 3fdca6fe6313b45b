import ExprLang.Cli.Args

/-!
# A run of the command line

`Cli.run alloc readArgs args input` is one run of the command line as a function: from the
arguments and everything on standard input to the exit code and the texts written to standard
output and standard error, with `alloc` the memory that repeated strings are reserved from.

1. The arguments are read by the argument parser, which the run takes as a parameter: help and
   the version go to standard output with code `0`, argument errors to standard error with
   code `2`.
2. The expression is the one given as an argument, or else the first line of the input, or
   else empty. If it does not read (`Expression.ofText`), its fault is reported with code `1`.
3. With `--symbols`, the free symbols are printed, one per line.
4. Otherwise every free symbol without a `--set` binding is asked for in order of appearance:
   the prompt `name = ` is printed and the next non-empty input line is its value
   (`readParam`). When the input ends first, that is reported with code `2`.
5. The expression is evaluated with the parameters (`Expression.evalParams`); the value is
   printed with code `0`, a fault reported with code `3`.

Log lines go to standard error before any error line: debug lines from one `-v` on, trace
lines from two.
-/

namespace ExprLang.Cli

/-- What a run gives: the exit code and the texts written to standard output and standard
error. -/
structure Outcome where
  code : Nat
  stdout : String
  stderr : String
deriving Repr

/-- The lines of the input: it is split at line feeds, a carriage return just before a line
feed is dropped, and there is no line after a final line feed. -/
def inputLines (input : String) : List String :=
  let parts := input.splitOn "\n"
  let dropReturn := fun (l : String) =>
    match l.toList.reverse with
    | '\r' :: r => String.ofList r.reverse
    | _ => l
  let last := parts.getLastD ""
  parts.dropLast.map dropReturn ++ (if last.isEmpty then [] else [last])

/-- The log lines shown at a verbosity, as printed. -/
def shownLog (verbosity : Nat) (log : List LogLine) : String :=
  String.join ((log.filter fun l =>
    match l.detail with
    | .debug => 1 ≤ verbosity
    | .trace => 2 ≤ verbosity).map fun l => l.render ++ "\n")

/-- Where asking for symbol values has got to. -/
structure Asking where
  params : Params
  /-- The input lines not yet read. -/
  lines : List String
  /-- The prompts printed so far. -/
  shown : String := ""
  /-- The symbol whose value the input ended without. -/
  missing : Option String := none

/-- Asks for the value of each symbol that has none: prints the prompt `name = ` and takes the
next non-empty line. -/
def ask : List String → Asking → Asking
  | [], a => a
  | name :: names, a =>
    if a.params.contains name then ask names a
    else
      let shown := a.shown ++ name ++ " = "
      match a.lines.dropWhile String.isEmpty with
      | l :: rest => ask names { a with params := a.params.insert name (readParam l), lines := rest, shown }
      | [] => { a with lines := [], shown, missing := some name }

/-- The expression of a run and the input lines after it: the expression given as an argument,
or else the first input line, or else the empty text. -/
def source (expression : Option String) (lines : List String) : String × List String :=
  match expression, lines with
  | some s, _ => (s, lines)
  | none, l :: rest => (l, rest)
  | none, [] => ("", [])

/-- A run with arguments that read as the options `o`. -/
def session (alloc : Allocator) (o : Options) (input : String) : Outcome :=
  let (src, lines) := source o.expression (inputLines input)
  let read := Expression.ofText src o.limit
  let e := read.value
  let log := shownLog o.verbosity read.log
  if !e.isOk then ⟨1, "", log ++ "Error: " ++ e.message ++ "\n"⟩
  else if o.symbolsOnly then ⟨0, String.join (e.symbols.map (· ++ "\n")), log⟩
  else
    let asked := ask e.symbols { params := Params.ofList o.bindings, lines }
    match asked.missing with
    | some name =>
      ⟨2, asked.shown, log ++ "Error: not a valid parameter for " ++ name ++ ": input ended\n"⟩
    | none =>
      let r := e.evalParams alloc asked.params
      let log := log ++ shownLog o.verbosity r.log
      match r.value.2 with
      | .ok v => ⟨0, asked.shown ++ v.text ++ "\n", log⟩
      | .error f => ⟨3, asked.shown, log ++ "Error: " ++ f.message ++ "\n"⟩

/-- One run of the command line, with `readArgs` the argument parser: it reads the arguments
into the options to run with, or stops. Repeated strings are reserved from `alloc`. -/
def run (alloc : Allocator) (readArgs : List String → Except Stop Options) (args : List String)
    (input : String) : Outcome :=
  match readArgs args with
  | .error .help => ⟨0, helpText, ""⟩
  | .error .version => ⟨0, programName ++ " " ++ programVersion ++ "\n", ""⟩
  | .error (.refused text) => ⟨2, "", text⟩
  | .ok o => session alloc o input

end ExprLang.Cli
