import TableParsing.Expression.Alphabet
import TableParsing.Lexing.Tables

/-!
# Lexer tables of arithmetic expressions

Outside of comments, numbers, identifiers, operators and parentheses are tokens and blanks are
skipped. A comment goes from `/*` to the next `*/`. The input must not end inside a comment.
-/

namespace TableParsing

namespace Expression

/-- The modes of the lexer: outside and inside of comments. -/
inductive Mode where
  | expr
  | comment
  deriving DecidableEq

instance : Enumerated Mode where
  all := [.expr, .comment]

def Mode.name : Mode → String
  | .expr => "Expr"
  | .comment => "Comment"

instance : Entry Mode where
  index := Mode.ctorIdx
  form m := .atom m.name

inductive Rule where
  | num
  | ident
  | plus
  | minus
  | times
  | divide
  | lparen
  | rparen
  | space
  | commentBegin
  | commentEnd
  | commentText
  | commentStar
  | finish
  deriving DecidableEq

instance : Enumerated Rule where
  all := [.num, .ident, .plus, .minus, .times, .divide, .lparen, .rparen, .space, .commentBegin,
    .commentEnd, .commentText, .commentStar, .finish]

def Rule.name : Rule → String
  | .num => "Num"
  | .ident => "Ident"
  | .plus => "Plus"
  | .minus => "Minus"
  | .times => "Times"
  | .divide => "Divide"
  | .lparen => "LParen"
  | .rparen => "RParen"
  | .space => "Space"
  | .commentBegin => "CommentBegin"
  | .commentEnd => "CommentEnd"
  | .commentText => "CommentText"
  | .commentStar => "CommentStar"
  | .finish => "End"

instance : Entry Rule where
  index := Rule.ctorIdx
  form r := .atom r.name

/-- The rules of a mode in the order of precedence, each with its pattern. -/
def lexicon : Mode → List (Rule × String)
  | .expr =>
    [(.num, "(?-u:[0-9]+)"), (.ident, "(?-u:[A-Za-z_][A-Za-z0-9_]*)"), (.plus, "\\+"),
      (.minus, "-"), (.times, "\\*"), (.divide, "/"), (.lparen, "\\("), (.rparen, "\\)"),
      (.space, "(?-u:[ \\t\\r\\n\\x0c]+)"), (.commentBegin, "/\\*")]
  | .comment => [(.commentEnd, "\\*/"), (.commentText, "(?-u:[^*])+"), (.commentStar, "\\*")]

/-- The rule of a pattern of a mode. Indices past the last pattern do not occur as matches. -/
def ruleOf (m : Mode) (index : Nat) : Rule :=
  match (lexicon m)[index]? with
  | some (rule, _) => rule
  | none => .finish

def lexAction : Mode → Rule → LexAction Lexeme Mode
  | .expr, .num => .emit .num
  | .expr, .ident => .emit .ident
  | .expr, .plus => .emit .plus
  | .expr, .minus => .emit .minus
  | .expr, .times => .emit .times
  | .expr, .divide => .emit .divide
  | .expr, .lparen => .emit .lparen
  | .expr, .rparen => .emit .rparen
  | .expr, .space => .skip
  | .expr, .commentBegin => .begin .comment
  | .expr, .finish => .skip
  | .comment, .commentEnd => .begin .expr
  | .comment, .commentText => .skip
  | .comment, .commentStar => .skip
  | .comment, .finish => .reject "unterminated comment"
  | _, _ => .reject "rule not valid in mode"

def lexTables : LexTables Lexeme Rule Mode where
  startMode := .expr
  modeCount := 2
  patterns := (Enumerated.all (α := Mode)).map fun m => (lexicon m).map Prod.snd
  rule := ruleOf
  endRule := .finish
  action := lexAction

end Expression

end TableParsing
