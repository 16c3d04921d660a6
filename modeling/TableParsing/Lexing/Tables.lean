import TableParsing.Automaton.Image
import TableParsing.Symbol
import TableParsing.Text.Quoted

/-!
# Lexer tables

A lexer has modes. Each mode has an ordered list of patterns, a rule for each pattern, and an action
for each rule. One further rule is applied once, at the end of the input. Instead of patterns,
tables can hold stored automata, one for each mode.
-/

namespace TableParsing

/-- What a lexer does with the bytes that a rule matched. -/
inductive LexAction (T M : Type) where
  /-- Append a token. -/
  | emit (terminal : T)
  /-- Append a token and change the mode. -/
  | emitBegin (terminal : T) (mode : M)
  /-- Drop the bytes. -/
  | skip
  /-- Drop the bytes and change the mode. -/
  | begin (mode : M)
  /-- Fail for a reason. -/
  | reject (reason : String)

namespace LexAction

variable {T M : Type}

/-- The terminal of the token that an action appends, if it does. -/
def terminal? : LexAction T M → Option T
  | .emit t | .emitBegin t _ => some t
  | _ => none

/-- The mode after an action in a given mode. -/
def nextMode (mode : M) : LexAction T M → M
  | .emitBegin _ m | .begin m => m
  | _ => mode

def name [Entry T] [Entry M] : LexAction T M → String
  | .emit t => "Emit(" ++ Entry.name t ++ ")"
  | .emitBegin t m => "EmitBegin(" ++ Entry.name t ++ ", " ++ Entry.name m ++ ")"
  | .skip => "Skip"
  | .begin m => "Begin(" ++ Entry.name m ++ ")"
  | .reject reason => "Reject(" ++ Quoted.text reason ++ ")"

end LexAction

/-- The tables of a lexer over terminals `T`, rules `R` and modes `M`. Automata are `A`. -/
structure LexTables (T R M : Type) (A : Type := Automaton) where
  startMode : M
  modeCount : Nat
  /-- The patterns of every mode, by number of the mode. -/
  patterns : List (List String)
  /-- Stored automata, which take the place of the patterns. -/
  image? : Option (Image A) := none
  /-- The rule of a pattern of a mode. -/
  rule : M → Nat → R
  /-- The rule for the end of the input. -/
  endRule : R
  action : M → R → LexAction T M

end TableParsing
