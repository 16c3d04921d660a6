import TableParsing.Automaton.Compiler
import TableParsing.Expression.Lexing
import TableParsing.Expression.Parsing
import TableParsing.Session

/-!
# The pipeline of arithmetic expressions

The lexer and the parser of expressions, made once from their tables and then used for any number of
runs.
-/

namespace TableParsing

namespace Expression

def lexer? : Except GrammarError (Lexer Lexeme Rule Mode) := Lexer.ofTables lexTables

def pipeline? : Except GrammarError (Pipeline Lexeme Phrase Production Rule Mode) :=
  lexer?.map fun lexer => ⟨lexer, parseTables⟩

def form (pipeline : Pipeline Lexeme Phrase Production Rule Mode) : Form :=
  .record "ExprPipeline" [("lexer", pipeline.lexer.form), ("parser", .record "Parser" [])]

end Expression

end TableParsing
