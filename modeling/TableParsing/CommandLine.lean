import TableParsing.Expression.Pipeline
import TableParsing.Tree.Display

/-!
# The command line program

The program parses one expression, which is given as an argument or is the first line of standard
input. It prints the number of tokens, the tokens, and the tree. A failure ends the output where it
occurs. A success logs the counters, at the info level; runs here are told whether that is shown.
-/

namespace TableParsing

namespace CommandLine

/-- What a run of the program leaves: its exit code, its output, and the lines of its
error output. -/
structure Outcome where
  exitCode : Nat
  output : String
  errors : List String
  deriving DecidableEq

/-- Where the expression comes from. -/
inductive Input where
  | argument (text : String)
  | standardInput (bytes : List UInt8)

/-- The bytes up to the first newline, which is included. -/
def firstLine (bytes : List UInt8) : List UInt8 :=
  bytes.takeWhile (· != Position.newline) ++
    (bytes.dropWhile (· != Position.newline)).take 1

def trimLineEnds (text : String) : String :=
  String.ofList (text.toList.reverse.dropWhile fun c => c == '\n' || c == '\r').reverse

/-- The expression of an input. A line has to be text; only its line ends are dropped. An argument
is taken as it is. -/
def Input.text? : Input → Option String
  | .argument text => some text
  | .standardInput bytes => (Utf8.decode? (firstLine bytes)).map trimLineEnds

def failure (output message : String) : Outcome := ⟨1, output, ["Error: " ++ message]⟩

def statsLine (d : Diagnostics) : String :=
  "Stats: " ++ d.lexer.form.inline ++ ", " ++ d.parser.form.inline

/-- What is printed of tokens: how many there are, and the tokens on a line. -/
def listing (src : Source) (tokens : TokenList Expression.Lexeme) : String :=
  "got " ++ toString tokens.size ++ " tokens\n" ++ tokens.display src ++ "\n"

/-- End with the tree of a run of the parser, behind what has been printed. -/
def conclude (src : Source) (stats : Bool) (output : String)
    (run : ParseRun Expression.Lexeme Expression.Phrase Expression.Production) (d : Diagnostics) :
    Outcome :=
  match run.result with
  | .error _ => failure output d.message
  | .ok tree => ⟨0, output ++ tree.display src, if stats then [statsLine d] else []⟩

def process (pipeline : Pipeline Expression.Lexeme Expression.Phrase Expression.Production
    Expression.Rule Expression.Mode) (src : Source) (stats : Bool) : Outcome :=
  let (lexRun, session) := ({} : Session Expression.Lexeme Expression.Phrase).lex pipeline src
  match lexRun.result with
  | .error _ => failure "" session.diagnostics.message
  | .ok tokens =>
    let (parseRun, session) := session.parse pipeline
    conclude src stats (listing src tokens) parseRun session.diagnostics

def run (input : Input) (stats : Bool) : Outcome :=
  match input.text? with
  | none => failure "" "stream did not contain valid UTF-8"
  | some text =>
    match Expression.pipeline? with
    | .error e => failure "" e.message
    | .ok pipeline => process pipeline (.ofString text) stats

end CommandLine

end TableParsing
