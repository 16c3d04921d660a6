import TableParsing.Symbol
import TableParsing.Source.Span
import TableParsing.Text.Form
import TableParsing.Text.Utf8

/-!
# Tokens

A token is a terminal together with the span that it covers. Tokens do not hold their text; it is
read back from a source, and is missing if the span does not fit that source.
-/

namespace TableParsing

namespace Span

def form (s : Span) : Form :=
  .record "Span" [("from", .nat s.start), ("to", .nat s.stop)]

/-- The text that a span covers, absent if it does not fit the source or cuts a character. -/
def text? (s : Span) (src : Source) : Option String :=
  if Utf8.isBoundary src s.start && Utf8.isBoundary src s.stop then
    (s.slice? src).bind fun bytes => Utf8.decode? bytes.toList
  else none

end Span

/-- A terminal and the part of the source that it was read from. -/
structure Token (T : Type) where
  terminal : T
  span : Span
  deriving DecidableEq

namespace Token

variable {T : Type}

def bytes? (t : Token T) (src : Source) : Option (Array UInt8) := t.span.slice? src

/-- The text of a token, absent if its span does not fit the source or cuts a character. -/
def text? (t : Token T) (src : Source) : Option String := t.span.text? src

/-- The text of a token as people see it: invalid parts are replaced, and a span that does not fit
the source is shown as a question mark. -/
def shown (t : Token T) (src : Source) : String :=
  match t.bytes? src with
  | some bytes => Utf8.decodeLossy bytes.toList
  | none => "?"

def form [Entry T] (t : Token T) : Form :=
  .record "Token" [("terminal", Entry.form t.terminal), ("span", t.span.form)]

end Token

abbrev TokenList (T : Type) := Array (Token T)

namespace TokenList

variable {T : Type}

/-- A token list on one line, each token as its label and its text in parentheses. -/
def display [Labelled T] (tokens : TokenList T) (src : Source) : String :=
  " ".intercalate (tokens.toList.map fun t =>
    "(" ++ Labelled.label t.terminal ++ " " ++ t.shown src ++ ")")

def form [Entry T] (tokens : TokenList T) : Form :=
  .record "TokenList" [("tokens", .list (tokens.toList.map Token.form))]

end TokenList

end TableParsing
