import TableParsing.Session

/-!
# Grammars given as data

A sheet is a grammar written down as lists: labels of symbols, patterns and actions of lexer modes,
and rows of parser tables. Symbols are numbers then. Whatever a sheet does not hold is an error
entry, so every sheet gives tables.
-/

namespace TableParsing

structure SheetSymbol where
  index : Nat
  label : String
  deriving DecidableEq

structure SheetTerminal extends SheetSymbol
  deriving DecidableEq

/-- The end mark of every sheet is numbered past all terminals. -/
instance : Terminal SheetTerminal where
  index t := t.index
  form t := .numbered "TermID" t.index
  label t := t.label
  endMark := ⟨⟨255, "END"⟩⟩

structure SheetNonterminal extends SheetSymbol
  deriving DecidableEq

instance : Labelled SheetNonterminal where
  index n := n.index
  form n := .numbered "NontermID" n.index
  label n := n.label

structure SheetProduction extends SheetSymbol where
  lhs : SheetNonterminal
  size : Nat
  deriving DecidableEq

instance : Labelled SheetProduction where
  index p := p.index
  form p := .numbered "ProdID" p.index
  label p := p.label

structure SheetMode where
  index : Nat
  deriving DecidableEq

instance : Entry SheetMode where
  index m := m.index
  form m := .numbered "Mode" m.index

/-- A lexer rule of a sheet: that of a pattern, which has the same number, or the end rule. -/
inductive SheetRule where
  | pattern (index : Nat)
  | finish
  deriving DecidableEq

namespace SheetRule

/-- The number of a rule; that of the end rule is past all patterns. -/
def index : SheetRule → Nat
  | .pattern index => index
  | .finish => 255

end SheetRule

instance : Entry SheetRule where
  index r := r.index
  form r := .numbered "Rule" r.index

structure LexSheet where
  startMode : Nat := 0
  modeCount : Nat
  patterns : List (List String)
  /-- The action of every pattern of every mode. -/
  actions : Array (Array (LexAction SheetTerminal SheetMode))
  /-- The action of the end rule in every mode. -/
  endActions : Array (LexAction SheetTerminal SheetMode)

namespace LexSheet

/-- The action of a rule in a mode. A rule that the mode does not have is rejected. -/
def action (sheet : LexSheet) (m : SheetMode) (r : SheetRule) : LexAction SheetTerminal SheetMode :=
  let found := match r with
    | .pattern index => sheet.actions[m.index]?.bind (·[index]?)
    | .finish => sheet.endActions[m.index]?
  found.getD (.reject "rule not valid in mode")

/-- The lexer tables of a sheet, with stored automata if there are any. -/
def tables (sheet : LexSheet) (image? : Option Image) :
    LexTables SheetTerminal SheetRule SheetMode where
  startMode := ⟨sheet.startMode⟩
  modeCount := sheet.modeCount
  patterns := sheet.patterns
  image? := image?
  rule _ index := .pattern index
  endRule := .finish
  action := sheet.action

end LexSheet

abbrev Cell := ParseAction SheetProduction

/-- The parser part of a sheet. A row has an entry for every terminal and then one for the end mark,
or an entry for every nonterminal. -/
structure ParseSheet where
  terminalCount : Nat
  start : Nat := 0
  action : Array (Array Cell) := #[]
  goto : Array (Array Cell) := #[]
  candidates : Array (Cell × Cell) := #[]
  /-- The entry for every terminal and the end mark, by ambiguity. -/
  resolutions? : Option (Array (Array Cell)) := none

namespace ParseSheet

def column (sheet : ParseSheet) (t : SheetTerminal) : Nat :=
  if t = Terminal.endMark then sheet.terminalCount else t.index

/-- An entry of rows, where those that do not exist are errors. -/
def entry (rows : Array (Array Cell)) (row column : Nat) : Cell :=
  (rows[row]?.bind (·[column]?)).getD .error

def choice (sheet : ParseSheet) (a : AmbigId) : Cell × Cell :=
  sheet.candidates[a.index]?.getD (.error, .error)

/-- The parser tables of a sheet. Without resolutions, every choice is settled by its
first action. -/
def tables (sheet : ParseSheet) : ParseTables SheetTerminal SheetNonterminal SheetProduction where
  start := ⟨sheet.start⟩
  action s t := entry sheet.action s.index (sheet.column t)
  goto s n :=
    match entry sheet.goto s.index n.index with
    | .goto target => some target
    | _ => none
  candidates := sheet.choice
  resolve a t :=
    match sheet.resolutions? with
    | some rows => entry rows a.index (sheet.column t)
    | none => (sheet.choice a).1
  lhs p := p.lhs
  size p := p.size

end ParseSheet

end TableParsing
