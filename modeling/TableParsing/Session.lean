import TableParsing.Lexing.Run
import TableParsing.Parsing.Run
import TableParsing.Tree.Measure

/-!
# Pipelines and sessions

A pipeline is a lexer and a parser over the same terminals. A session works with one pipeline on one
source after another. It keeps the results of the last runs that succeeded, and diagnostics of all
runs since it was started or last cleared.
-/

namespace TableParsing

structure Pipeline (T N P R M : Type) where
  lexer : Lexer T R M
  parser : ParseTables T N P

structure Session (T N : Type) where
  source : Source := #[]
  tokens : TokenList T := #[]
  tree? : Option (Tree T N) := none
  diagnostics : Diagnostics := {}

namespace Session

variable {T N P R M : Type} [Terminal T] [Labelled N] [Labelled P] [Entry R] [Entry M]

/-- Record a run of the lexer. If it succeeded, the source and its tokens become the current
ones. -/
def keepTokens (s : Session T N) (src : Source) (run : LexRun T R M) : Session T N :=
  let s := { s with diagnostics := run.record src s.diagnostics }
  match run.result with
  | .ok tokens => { s with source := src, tokens }
  | .error _ => s

def lex [DecidableEq M] (s : Session T N) (pipeline : Pipeline T N P R M) (src : Source) :
    LexRun T R M × Session T N :=
  let run := pipeline.lexer.lex src
  (run, s.keepTokens src run)

/-- Record a run of the parser. If it succeeded, the tree is kept. -/
def keepTree (s : Session T N) (run : ParseRun T N P) : Session T N :=
  let s := { s with diagnostics := run.record s.diagnostics }
  match run.result with
  | .ok tree => { s with tree? := some tree }
  | .error _ => s

def parse (s : Session T N) (pipeline : Pipeline T N P R M) : ParseRun T N P × Session T N :=
  let run := pipeline.parser.parse s.tokens
  (run, s.keepTree run)

/-- Whether parsing the current tokens once more gives the tree that is kept, or none if none is. -/
def agrees [DecidableEq T] [DecidableEq N] (s : Session T N) (pipeline : Pipeline T N P R M) :
    ParseRun T N P × Bool :=
  let run := pipeline.parser.parse s.tokens
  (run, run.result.toOption == s.tree?)

def report (s : Session T N) (kind : FailureKind) (parts : List String) : Session T N :=
  { s with diagnostics := s.diagnostics.report kind parts }

def clear (s : Session T N) : Session T N := { s with diagnostics := {} }

end Session

end TableParsing
