import TableParsing.Text.Form

/-!
# Counters

Lexing and parsing count what they do. The counters of a lexer add up over several runs; those of a
parser belong to one run.
-/

namespace TableParsing

/-- What lexing has done: searches for a match, tokens emitted, bytes that belong to no token, and
changes of the mode. -/
structure LexCounters where
  searches : Nat := 0
  tokens : Nat := 0
  skipped : Nat := 0
  modeSwitches : Nat := 0
  deriving DecidableEq

namespace LexCounters

instance : Add LexCounters where
  add a b :=
    ⟨a.searches + b.searches, a.tokens + b.tokens, a.skipped + b.skipped,
      a.modeSwitches + b.modeSwitches⟩

def form (c : LexCounters) : Form :=
  .record "LexerStats" [("matches", .nat c.searches), ("tokens", .nat c.tokens),
    ("skipped", .nat c.skipped), ("mode_switches", .nat c.modeSwitches)]

end LexCounters

/-- What parsing has done: tokens consumed, shifts, reductions, and ambiguities resolved. -/
structure ParseCounters where
  tokens : Nat := 0
  shifts : Nat := 0
  reductions : Nat := 0
  ambiguities : Nat := 0
  deriving DecidableEq

namespace ParseCounters

def form (c : ParseCounters) : Form :=
  .record "ParserStats" [("tokens", .nat c.tokens), ("shifts", .nat c.shifts),
    ("reductions", .nat c.reductions), ("ambigs", .nat c.ambiguities)]

end ParseCounters

end TableParsing
