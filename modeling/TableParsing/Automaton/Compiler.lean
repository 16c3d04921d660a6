import TableParsing.Automaton.Basic
import TableParsing.Pattern.Reader

/-!
# Automata from patterns

The engine of this library. A pattern is read, the patterns of a mode are kept as they are, and
their expressions over bytes make the automaton. There is none if a condition on words of Unicode
characters is left among them.
-/

namespace TableParsing

namespace Automaton

/-- The message for patterns that have no automaton. -/
def unicodeWordMessage : String :=
  "unsupported regex feature for DFAs: cannot build DFAs for regexes with Unicode word " ++
    "boundaries; switch to ASCII word boundaries, or heuristically enable Unicode word " ++
    "boundaries or use a different regex engine"

/-- Make automata that give up on certain bytes. If these are all bytes beyond ASCII, an automaton
can never be asked for words of other characters than ASCII. -/
def compiler (quits : ByteSet) : Compiler Pattern (List Pattern) Automaton where
  read text :=
    match Pattern.read? text with
    | some p => .ok p
    | none => .error "regex parse error"
  combine ps := .ok ps
  build ps :=
    match ps.mapM (Pattern.toRegex? quits.coversNonAscii) with
    | some regexes => .ok { patterns := regexes, quits }
    | none => .error unicodeWordMessage

/-- Automata of lexers give up on no byte. -/
instance : Engine Automaton Pattern (List Pattern) Scan where
  compiler := compiler .empty

end Automaton

end TableParsing
