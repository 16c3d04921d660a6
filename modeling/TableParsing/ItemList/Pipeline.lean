import TableParsing.Automaton.Compiler
import TableParsing.ItemList.Lexing
import TableParsing.ItemList.Parsing
import TableParsing.Session

/-!
# The pipeline of item lists

The lexer and the parser of lists, made once from their tables.
-/

namespace TableParsing

namespace ItemList

def lexer? : Except GrammarError (Lexer Lexeme Rule Mode) := Lexer.ofTables lexTables

def pipeline? : Except GrammarError (Pipeline Lexeme Phrase Production Rule Mode) :=
  lexer?.map fun lexer => ⟨lexer, parseTables⟩

end ItemList

end TableParsing
