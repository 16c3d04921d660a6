import TableParsing.Counters
import TableParsing.Text.Bounded

/-!
# Diagnostics

Diagnostics go along with the stages of a pipeline. They hold the kind and the message of the last
failure and the counters. A later success leaves the last failure in place; only a fresh start
clears it.
-/

namespace TableParsing

inductive FailureKind where
  | allocation
  | lexical
  | syntactic
  deriving DecidableEq

namespace FailureKind

def description : FailureKind → String
  | .allocation => "allocation failure"
  | .lexical => "lexical error"
  | .syntactic => "syntax error"

def name : FailureKind → String
  | .allocation => "AllocationFailure"
  | .lexical => "LexError"
  | .syntactic => "SyntaxError"

def all : List FailureKind := [.allocation, .lexical, .syntactic]

end FailureKind

inductive LogLevel where
  | trace
  | debug
  deriving DecidableEq

namespace LogLevel

def name : LogLevel → String
  | .trace => "TRACE"
  | .debug => "DEBUG"

end LogLevel

structure LogLine where
  level : LogLevel
  text : String

/-- The last failure and the counters of a sequence of runs. -/
structure Diagnostics where
  kind : Option FailureKind := none
  message : String := ""
  lexer : LexCounters := {}
  parser : ParseCounters := {}

namespace Diagnostics

/-- The greatest size of a stored message in bytes. -/
def maxMessageSize : Nat := 256

/-- The message that is stored when its text is written in several parts. -/
def stored (parts : List String) : String :=
  ((BoundedText.empty maxMessageSize).writeAll parts).text

/-- Record a failure in place of any earlier one. -/
def report (d : Diagnostics) (kind : FailureKind) (parts : List String) : Diagnostics :=
  { d with kind := some kind, message := stored parts }

def isOk (d : Diagnostics) : Bool := d.kind.isNone

def reportLine (kind : FailureKind) (parts : List String) : LogLine :=
  ⟨.debug, kind.description ++ ": " ++ stored parts⟩

end Diagnostics

end TableParsing
