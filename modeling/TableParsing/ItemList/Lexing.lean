import TableParsing.ItemList.Alphabet
import TableParsing.Lexing.Tables

/-!
# Lexer tables of item lists

An item is `a` and a pair is `aa`, so a longer run of the letter is read as pairs as far as
possible. Spaces and newlines are skipped. A comment goes from `#` to the end of the line, which
must not be the end of the input.
-/

namespace TableParsing

namespace ItemList

/-- The modes of the lexer: outside and inside of comments. -/
inductive Mode where
  | main
  | comment
  deriving DecidableEq

instance : Enumerated Mode where
  all := [.main, .comment]

def Mode.name : Mode → String
  | .main => "Main"
  | .comment => "Comment"

instance : Entry Mode where
  index := Mode.ctorIdx
  form m := .atom m.name

inductive Rule where
  | item
  | pair
  | stop
  | space
  | commentBegin
  | commentEnd
  | commentBody
  | finish
  deriving DecidableEq

instance : Enumerated Rule where
  all := [.item, .pair, .stop, .space, .commentBegin, .commentEnd, .commentBody, .finish]

def Rule.name : Rule → String
  | .item => "Item"
  | .pair => "Pair"
  | .stop => "Stop"
  | .space => "Space"
  | .commentBegin => "CommentBegin"
  | .commentEnd => "CommentEnd"
  | .commentBody => "CommentBody"
  | .finish => "End"

instance : Entry Rule where
  index := Rule.ctorIdx
  form r := .atom r.name

/-- The rules of a mode in the order of precedence, each with its pattern. -/
def lexicon : Mode → List (Rule × String)
  | .main =>
    [(.item, "a"), (.pair, "aa"), (.stop, ";"), (.space, "(?-u:[ \\n]+)"), (.commentBegin, "#")]
  | .comment => [(.commentEnd, "\\n"), (.commentBody, "(?-u:[^\\n])+")]

/-- The rule of a pattern of a mode. Indices past the last pattern do not occur as matches. -/
def ruleOf (m : Mode) (index : Nat) : Rule :=
  match (lexicon m)[index]? with
  | some (rule, _) => rule
  | none => .finish

def lexAction : Mode → Rule → LexAction Lexeme Mode
  | .main, .item => .emit .item
  | .main, .pair => .emit .pair
  | .main, .stop => .emit .stop
  | .main, .space => .skip
  | .main, .commentBegin => .begin .comment
  | .main, .finish => .skip
  | .comment, .commentEnd => .begin .main
  | .comment, .commentBody => .skip
  | .comment, .finish => .reject "unterminated line comment"
  | _, _ => .reject "rule not valid in mode"

def lexTables : LexTables Lexeme Rule Mode where
  startMode := .main
  modeCount := 2
  patterns := (Enumerated.all (α := Mode)).map fun m => (lexicon m).map Prod.snd
  rule := ruleOf
  endRule := .finish
  action := lexAction

end ItemList

end TableParsing
