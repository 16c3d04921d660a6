import TableParsing.Text.Form

/-!
# Symbols and table entries

Grammar tables are written over finite alphabets: terminals, nonterminals, modes, rules and
productions. Every member of such an alphabet has a number and a picture; on one line, the picture
is the name that traces show. Grammar symbols and productions have in addition a label, which is
what messages and printed trees show. Nothing else is assumed of an alphabet, so tables can be
written over inductive types and over numbers alike.
-/

namespace TableParsing

/-- A member of a table's alphabet: its number and its picture. -/
class Entry (α : Type) where
  index : α → Nat
  form : α → Form

/-- The name that traces give an entry. -/
def Entry.name {α : Type} [Entry α] (a : α) : String := (Entry.form a).inline

/-- An entry that messages and printed trees mention, by its label. -/
class Labelled (α : Type) extends Entry α where
  label : α → String

/-- Terminals have one member that stands for the end of the input. It is the lookahead after the
last token, and a lexer need not emit it. -/
class Terminal (T : Type) extends Labelled T where
  endMark : T

/-- An alphabet whose members can be listed, in the order of their numbers. -/
class Enumerated (α : Type) where
  all : List α

end TableParsing
