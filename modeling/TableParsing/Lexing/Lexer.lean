import TableParsing.Lexing.Tables
import TableParsing.Text.Form

/-!
# Making a lexer from tables

A lexer holds one automaton for each mode. Automata are made by an engine from the patterns of the
tables, or loaded if the tables hold them. Tables that give no lexer are grammar errors, which are
found before any input is read. The first defect counts: a wrong number of pattern lists, then mode
by mode first a pattern that the engine cannot read, then patterns of which it makes no automaton.
-/

namespace TableParsing

/-- Why tables give no lexer. -/
inductive GrammarError where
  /-- There are not as many pattern lists as modes. -/
  | modeCount (expected found : Nat)
  /-- A text in the pattern list of a mode is no pattern. -/
  | pattern (mode : Nat) (text message : String)
  /-- The patterns of a mode cannot be put together. -/
  | nfa (message : String)
  /-- What has been put together has no automaton. -/
  | dfa (message : String)
  /-- The stored automata cannot be loaded. -/
  | image (fault : Image.Fault)
  deriving DecidableEq

namespace GrammarError

/-- The wording of an error. Messages of the engine come last. -/
def message : GrammarError → String
  | .modeCount expected found =>
    "expected " ++ toString expected ++ " lexer modes, found " ++ toString found
  | .pattern mode text message =>
    "mode " ++ toString mode ++ ": invalid pattern " ++ Quoted.text text ++ ": " ++ message
  | .nfa message => "nfa build error " ++ message
  | .dfa message => "dfa build error " ++ message
  | .image fault => "dfa deserialize error " ++ fault.message

end GrammarError

/-- Tables with the automata of their modes. -/
structure Lexer (T R M : Type) (A : Type := Automaton) where
  tables : LexTables T R M A
  automata : Array A

namespace Lexer

section Building

variable {X N A : Type}

def readPatterns (c : Compiler X N A) (mode : Nat) : List String → Except GrammarError (List X)
  | [] => .ok []
  | text :: texts =>
    match c.read text with
    | .error message => .error (.pattern mode text message)
    | .ok x =>
      match readPatterns c mode texts with
      | .ok xs => .ok (x :: xs)
      | .error e => .error e

def buildMode (c : Compiler X N A) (mode : Nat) (texts : List String) : Except GrammarError A :=
  match readPatterns c mode texts with
  | .error e => .error e
  | .ok xs =>
    match c.combine xs with
    | .error message => .error (.nfa message)
    | .ok n =>
      match c.build n with
      | .error message => .error (.dfa message)
      | .ok a => .ok a

/-- Make the automata of modes, numbered from `mode`. -/
def buildModes (c : Compiler X N A) :
    Nat → List (List String) → Except GrammarError (List A)
  | _, [] => .ok []
  | mode, texts :: rest =>
    match buildMode c mode texts with
    | .error e => .error e
    | .ok a =>
      match buildModes c (mode + 1) rest with
      | .ok as => .ok (a :: as)
      | .error e => .error e

def buildAutomata (c : Compiler X N A) (modeCount : Nat) (patterns : List (List String)) :
    Except GrammarError (List A) :=
  if patterns.length ≠ modeCount then .error (.modeCount modeCount patterns.length)
  else buildModes c 0 patterns

def loadAutomata (modeCount : Nat) (image : Image A) : Except GrammarError (List A) :=
  match image.load modeCount with
  | .ok as => .ok as
  | .error fault => .error (.image fault)

end Building

variable {T R M A : Type}

/-- The lexer of tables. Stored automata come before patterns. -/
def ofTables {X N S : Type} [Engine A X N S] (tables : LexTables T R M A) :
    Except GrammarError (Lexer T R M A) :=
  let automata := match tables.image? with
    | some image => loadAutomata tables.modeCount image
    | none => buildAutomata (Engine.compilerOf A) tables.modeCount tables.patterns
  match automata with
  | .ok as => .ok ⟨tables, as.toArray⟩
  | .error e => .error e

def form (lexer : Lexer T R M A) : Form := .record "Lexer" [("modes", .nat lexer.automata.size)]

end Lexer

end TableParsing
