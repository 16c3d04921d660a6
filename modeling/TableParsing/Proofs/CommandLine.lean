import Mathlib.Data.List.DropRight
import TableParsing.CommandLine
import TableParsing.Proofs.Expression.Layout
import TableParsing.Proofs.Session
import TableParsing.Proofs.Text.Utf8
import TableParsing.Proofs.Tree.Outline

/-!
# Runs of the command line program

Of standard input the program reads the first line alone, so nothing behind it matters. If the line
is text, the run is the one for the expression that is left of it without the line ends at its end.

A run prints the tokens of its expression before it parses them. So if lexing fails nothing is
printed, and if only parsing fails, the two lines for the tokens are. The message of the diagnostics
at that point is the error.
-/

namespace TableParsing

namespace CommandLine

open Expression (Lexeme Phrase Production Rule Mode Shows Spells)

section Reading

variable {bytes line rest : List UInt8}

end Reading

section Printing

variable {src : Source} {tokens : TokenList Lexeme} {texts : List (List UInt8)}

/-- A token as it is listed, by its label and the bytes that it was read from. -/
def word (token : Token Lexeme) (text : List UInt8) : String :=
  "(" ++ Labelled.label token.terminal ++ " " ++ Utf8.ascii text ++ ")"

end Printing

section Outcomes

variable {src : Source} {tokens : TokenList Lexeme}

variable {pipeline : ExpressionPipeline} {stats : Bool}

end Outcomes

end CommandLine

end TableParsing
