import TableParsing.Symbol

/-!
# The alphabet of item lists

A list is a sequence of items and pairs:

    Start -> List
    List  -> List item | List pair |

There is one further terminal, which no list contains.
-/

namespace TableParsing

namespace ItemList

/-- The terminals of lists. -/
inductive Lexeme where
  | item
  | pair
  | stop
  | finish
  deriving DecidableEq

instance : Enumerated Lexeme where
  all := [.item, .pair, .stop, .finish]

namespace Lexeme

def name : Lexeme → String
  | .item => "Item"
  | .pair => "Pair"
  | .stop => "Stop"
  | .finish => "End"

def label : Lexeme → String
  | .item => "ITEM"
  | .pair => "PAIR"
  | .stop => "STOP"
  | .finish => "END"

end Lexeme

instance : Terminal Lexeme where
  index := Lexeme.ctorIdx
  form t := .atom t.name
  label := Lexeme.label
  endMark := .finish

/-- The nonterminals of lists. -/
inductive Phrase where
  | start
  | list
  deriving DecidableEq

instance : Enumerated Phrase where
  all := [.start, .list]

namespace Phrase

def label : Phrase → String
  | .start => "Start"
  | .list => "List"

end Phrase

instance : Labelled Phrase where
  index := Phrase.ctorIdx
  form n := .atom n.label
  label := Phrase.label

inductive Production where
  /-- `Start -> List` -/
  | start
  /-- `List -> List item` -/
  | addItem
  /-- `List -> List pair` -/
  | addPair
  /-- `List ->` -/
  | emptyList
  deriving DecidableEq

instance : Enumerated Production where
  all := [.start, .addItem, .addPair, .emptyList]

namespace Production

def name : Production → String
  | .start => "Start"
  | .addItem => "List1"
  | .addPair => "List2"
  | .emptyList => "List3"

def label : Production → String
  | .start => "start"
  | .addItem => "list1"
  | .addPair => "list2"
  | .emptyList => "list3"

def lhs : Production → Phrase
  | .start => .start
  | _ => .list

def size : Production → Nat
  | .start => 1
  | .addItem | .addPair => 2
  | .emptyList => 0

end Production

instance : Labelled Production where
  index := Production.ctorIdx
  form p := .atom p.name
  label := Production.label

end ItemList

end TableParsing
