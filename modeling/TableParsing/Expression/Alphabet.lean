import TableParsing.Symbol

/-!
# The alphabet of arithmetic expressions

Expressions are made of numbers, identifiers, four binary operators and parentheses:

    Start -> Expr
    Expr  -> Expr + Expr | Expr - Expr | Expr * Expr | Expr / Expr | ( Expr ) | num | ident
-/

namespace TableParsing

namespace Expression

/-- The terminals of expressions. -/
inductive Lexeme where
  | num
  | ident
  | plus
  | minus
  | times
  | divide
  | lparen
  | rparen
  | finish
  deriving DecidableEq

instance : Enumerated Lexeme where
  all := [.num, .ident, .plus, .minus, .times, .divide, .lparen, .rparen, .finish]

namespace Lexeme

def name : Lexeme → String
  | .num => "Num"
  | .ident => "Ident"
  | .plus => "Plus"
  | .minus => "Minus"
  | .times => "Times"
  | .divide => "Divide"
  | .lparen => "LParen"
  | .rparen => "RParen"
  | .finish => "End"

def label : Lexeme → String
  | .num => "NUM"
  | .ident => "IDENT"
  | .plus => "PLUS"
  | .minus => "MINUS"
  | .times => "TIMES"
  | .divide => "DIVIDE"
  | .lparen => "LPAREN"
  | .rparen => "RPAREN"
  | .finish => "END"

end Lexeme

instance : Terminal Lexeme where
  index := Lexeme.ctorIdx
  form t := .atom t.name
  label := Lexeme.label
  endMark := .finish

/-- The nonterminals of expressions. -/
inductive Phrase where
  | start
  | expr
  deriving DecidableEq

instance : Enumerated Phrase where
  all := [.start, .expr]

namespace Phrase

def label : Phrase → String
  | .start => "Start"
  | .expr => "Expr"

end Phrase

instance : Labelled Phrase where
  index := Phrase.ctorIdx
  form n := .atom n.label
  label := Phrase.label

inductive Production where
  /-- `Start -> Expr` -/
  | start
  /-- `Expr -> Expr + Expr` -/
  | sum
  /-- `Expr -> Expr - Expr` -/
  | difference
  /-- `Expr -> Expr * Expr` -/
  | product
  /-- `Expr -> Expr / Expr` -/
  | quotient
  /-- `Expr -> ( Expr )` -/
  | parentheses
  /-- `Expr -> num` -/
  | number
  /-- `Expr -> ident` -/
  | identifier
  deriving DecidableEq

instance : Enumerated Production where
  all := [.start, .sum, .difference, .product, .quotient, .parentheses, .number, .identifier]

namespace Production

def name : Production → String
  | .start => "Start"
  | .sum => "Expr1"
  | .difference => "Expr2"
  | .product => "Expr3"
  | .quotient => "Expr4"
  | .parentheses => "Expr5"
  | .number => "Expr6"
  | .identifier => "Expr7"

def label : Production → String
  | .start => "start"
  | .sum => "expr1"
  | .difference => "expr2"
  | .product => "expr3"
  | .quotient => "expr4"
  | .parentheses => "expr5"
  | .number => "expr6"
  | .identifier => "expr7"

def lhs : Production → Phrase
  | .start => .start
  | _ => .expr

def size : Production → Nat
  | .start | .number | .identifier => 1
  | _ => 3

end Production

instance : Labelled Production where
  index := Production.ctorIdx
  form p := .atom p.name
  label := Production.label

end Expression

end TableParsing
