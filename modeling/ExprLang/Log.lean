import ExprLang.Tree.Parse

/-!
# Log lines

Reading and evaluating write log lines that a command line can show on request. A line has a
level of detail — `debug` lines are shown from one `-v` on, `trace` lines from two — and is
printed as `[DEBUG] text` or `[TRACE] text`.

Reading a whole text writes one trace line for every lexeme the parser moves on to, after the
first (`lookahead Op(Plus) at 1`, with the byte offset where scanning for it began), and a
debug line `parsed expression (1 + x)` when it succeeds. `Logged` pairs a result with the
lines written while computing it.
-/

namespace ExprLang

/-- How much detail a log line carries. -/
inductive Detail where
  | debug
  | trace
deriving Repr, DecidableEq

/-- One log line. -/
structure LogLine where
  detail : Detail
  text : String
deriving Repr

/-- The printed form of a log line. -/
def LogLine.render (l : LogLine) : String :=
  (match l.detail with
   | .debug => "[DEBUG] "
   | .trace => "[TRACE] ") ++ l.text

/-- A result with the log lines written while computing it. -/
structure Logged (α : Type) where
  value : α
  log : List LogLine := []

namespace Reading

/-- The lines written while reading the lexemes `ls` of a whole text: a trace line for each
lexeme the parser moved on to, then a debug line with the tree when reading succeeded. -/
def log (r : Reading) (ls : List Lexeme) : List LogLine :=
  ((ls.drop 1).take r.consumed).map (fun l =>
      ⟨.trace, "lookahead " ++ l.token.logText ++ " at " ++ toString l.start⟩) ++
    match r.result with
    | .ok t => [⟨.debug, "parsed expression " ++ t.render⟩]
    | .error _ => []

end Reading

end ExprLang
