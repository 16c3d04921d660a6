import TableParsing.Expression.Alphabet
import TableParsing.Parsing.Tables

/-!
# Parser tables of arithmetic expressions

The grammar does not say how operators group. After a complete binary expression in front of another
operator the tables therefore leave a choice, one for each pair of operators. It is settled by
precedence: times and divide bind tighter than plus and minus, and all four group to the left.
-/

namespace TableParsing

namespace Expression

abbrev Action := ParseAction Production

/-- The position of a binary operator among the four, with the state that shifting it leads to. -/
def operatorIndex? : Lexeme → Option Nat
  | .plus => some 0
  | .minus => some 1
  | .times => some 2
  | .divide => some 3
  | _ => none

def operatorState (index : Nat) : StateId := ⟨4 + index⟩

def operatorProduction : Nat → Production
  | 0 => .sum
  | 1 => .difference
  | 2 => .product
  | _ => .quotient

/-- Where an expression begins: a number, an identifier or an opening parenthesis is shifted. -/
def beginExpression : Lexeme → Action
  | .num => .shift ⟨3⟩
  | .ident => .shift ⟨14⟩
  | .lparen => .shift ⟨2⟩
  | _ => .error

/-- After an expression: an operator is shifted, and one further terminal has an action of
its own. -/
def afterExpression (last : Lexeme) (action : Action) (t : Lexeme) : Action :=
  match operatorIndex? t with
  | some i => .shift (operatorState i)
  | none => if t = last then action else .error

/-- At the end of a production: it is reduced in front of whatever can follow an expression. -/
def endProduction (p : Production) : Lexeme → Action
  | .plus | .minus | .times | .divide | .rparen | .finish => .reduce p
  | _ => .error

/-- After both operands of an operator: another operator leaves a choice. -/
def afterOperands (index : Nat) (t : Lexeme) : Action :=
  match operatorIndex? t with
  | some i => .ambig ⟨4 * index + i⟩
  | none => endProduction (operatorProduction index) t

def action (s : StateId) (t : Lexeme) : Action :=
  match s.index with
  | 0 => beginExpression t
  | 1 => afterExpression .finish .accept t
  | 2 => beginExpression t
  | 3 => endProduction .number t
  | 4 => beginExpression t
  | 5 => beginExpression t
  | 6 => beginExpression t
  | 7 => beginExpression t
  | 8 => afterExpression .rparen (.shift ⟨13⟩) t
  | 9 => afterOperands 0 t
  | 10 => afterOperands 1 t
  | 11 => afterOperands 2 t
  | 12 => afterOperands 3 t
  | 13 => endProduction .parentheses t
  | 14 => endProduction .identifier t
  | _ => .error

/-- The state after an expression, by the state before it. -/
def goto (s : StateId) : Phrase → Option StateId
  | .start => none
  | .expr =>
    match s.index with
    | 0 => some ⟨1⟩
    | 2 => some ⟨8⟩
    | 4 => some ⟨9⟩
    | 5 => some ⟨10⟩
    | 6 => some ⟨11⟩
    | 7 => some ⟨12⟩
    | _ => none

def stateCount : Nat := 15

/-- The number of choices: one for each pair of operators. -/
def ambiguityCount : Nat := 16

/-- The two actions of a choice: to shift the next operator, and to reduce the last one. -/
def candidates (a : AmbigId) : Action × Action :=
  if a.index < ambiguityCount then
    (.shift (operatorState (a.index % 4)), .reduce (operatorProduction (a.index / 4)))
  else (.error, .error)

/-- Choose by precedence: only a sum or a difference gives way, and only to times or divide. -/
def resolve (a : AmbigId) (t : Lexeme) : Action :=
  match candidates a with
  | (shift, .reduce p) =>
    match p, t with
    | .sum, .times | .sum, .divide | .difference, .times | .difference, .divide => shift
    | p, _ => .reduce p
  | (shift, _) => shift

def parseTables : ParseTables Lexeme Phrase Production where
  start := ⟨0⟩
  action := action
  goto := goto
  candidates := candidates
  resolve := resolve
  lhs := Production.lhs
  size := Production.size

end Expression

end TableParsing
