import TableParsing.ItemList.Alphabet
import TableParsing.Parsing.Tables

/-!
# Parser tables of item lists

A list begins as the empty list and grows to the right by one item or pair at a time. The tables
leave no choice.
-/

namespace TableParsing

namespace ItemList

abbrev Action := ParseAction Production

/-- At the end of a production: it is reduced in front of whatever can follow a list. -/
def endProduction (p : Production) : Lexeme → Action
  | .stop => .error
  | _ => .reduce p

/-- After a list: it goes on, or the input is over. -/
def afterList : Lexeme → Action
  | .item => .shift ⟨2⟩
  | .pair => .shift ⟨3⟩
  | .stop => .error
  | .finish => .accept

def action (s : StateId) (t : Lexeme) : Action :=
  match s.index with
  | 0 => endProduction .emptyList t
  | 1 => afterList t
  | 2 => endProduction .addItem t
  | 3 => endProduction .addPair t
  | _ => .error

/-- The state after a list, by the state before it. -/
def goto (s : StateId) : Phrase → Option StateId
  | .start => none
  | .list => if s.index = 0 then some ⟨1⟩ else none

def stateCount : Nat := 4

def ambiguityCount : Nat := 0

def parseTables : ParseTables Lexeme Phrase Production where
  start := ⟨0⟩
  action := action
  goto := goto
  candidates _ := (.error, .error)
  lhs := Production.lhs
  size := Production.size

end ItemList

end TableParsing
