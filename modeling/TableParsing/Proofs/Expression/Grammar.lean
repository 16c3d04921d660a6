import TableParsing.Expression.Parsing
import TableParsing.Tree.Basic

/-!
# Sentences of arithmetic expressions

`Sentence` is the grammar of expressions, as a relation on words of terminals. `Expr` is an
expression with the spans of its tokens; it stands for a derivation, and for a tree.

Whether a word is the beginning of a sentence needs no derivation. `Phase` records whether an
operand is awaited and how many parentheses are open; a word that `Phase.read` refuses begins no
sentence. The converse needs an expression that completes the word, and is proved where there is
one at hand.
-/

namespace TableParsing

namespace Expression

inductive Operator where
  | plus
  | minus
  | times
  | divide
  deriving DecidableEq

namespace Operator

def lexeme : Operator → Lexeme
  | .plus => .plus
  | .minus => .minus
  | .times => .times
  | .divide => .divide

def ofLexeme? : Lexeme → Option Operator
  | .plus => some .plus
  | .minus => some .minus
  | .times => some .times
  | .divide => some .divide
  | _ => none

@[simp] theorem ofLexeme?_lexeme (op : Operator) : ofLexeme? op.lexeme = some op := by
  cases op <;> rfl

theorem ofLexeme?_eq_some {a : Lexeme} {op : Operator} (h : ofLexeme? a = some op) :
    a = op.lexeme := by
  cases a <;> cases h <;> rfl

end Operator

/-- An expression together with the spans of its tokens. -/
inductive Expr where
  | number (span : Span)
  | identifier (span : Span)
  | binary (op : Operator) (left : Expr) (span : Span) (right : Expr)
  | group (opening : Span) (inner : Expr) (closing : Span)

namespace Expr

def tokens : Expr → List (Token Lexeme)
  | .number span => [⟨.num, span⟩]
  | .identifier span => [⟨.ident, span⟩]
  | .binary op left span right => left.tokens ++ ⟨op.lexeme, span⟩ :: right.tokens
  | .group opening inner closing => ⟨.lparen, opening⟩ :: (inner.tokens ++ [⟨.rparen, closing⟩])

def lexemes (e : Expr) : List Lexeme := e.tokens.map Token.terminal

def toTree : Expr → Tree Lexeme Phrase
  | .number span => .node .expr [.leaf ⟨.num, span⟩]
  | .identifier span => .node .expr [.leaf ⟨.ident, span⟩]
  | .binary op left span right =>
    .node .expr [left.toTree, .leaf ⟨op.lexeme, span⟩, right.toTree]
  | .group opening inner closing =>
    .node .expr [.leaf ⟨.lparen, opening⟩, inner.toTree, .leaf ⟨.rparen, closing⟩]

@[simp] theorem frontier_toTree (e : Expr) : e.toTree.frontier = e.tokens := by
  induction e with
  | number | identifier => rfl
  | binary op left span right ihl ihr =>
      simp [toTree, tokens, Tree.frontier, Tree.forestFrontier, ihl, ihr]
  | group opening inner closing ih =>
      simp [toTree, tokens, Tree.frontier, Tree.forestFrontier, ih]

/-- A tree has two nodes for each of its tokens but the closing parentheses, which have one. -/
theorem size_toTree_add_count (e : Expr) :
    e.toTree.size + e.lexemes.count .rparen = 2 * e.tokens.length := by
  induction e with
  | number | identifier => rfl
  | binary op left span right ihl ihr =>
      have operator : op.lexeme ≠ .rparen := by cases op <;> decide
      simp only [lexemes, tokens, toTree, Tree.size, Tree.forestSize, List.map_append,
        List.map_cons, List.count_append, List.count_cons_of_ne operator, List.length_append,
        List.length_cons] at *
      omega
  | group opening inner closing ih =>
      have parenthesis : Lexeme.lparen ≠ .rparen := by decide
      simp only [lexemes, tokens, toTree, Tree.size, Tree.forestSize, List.map_append,
        List.map_cons, List.map_nil, List.count_append, List.count_cons_of_ne parenthesis,
        List.count_singleton_self, List.length_append, List.length_cons, List.length_nil] at *
      omega

theorem size_toTree_le (e : Expr) : e.toTree.size ≤ 2 * e.tokens.length := by
  have := e.size_toTree_add_count
  omega

end Expr

/-- The sentences of the grammar: a number, an identifier, two sentences with an operator between
them, and a sentence in parentheses. -/
inductive Sentence : List Lexeme → Prop where
  | number : Sentence [.num]
  | identifier : Sentence [.ident]
  | binary {u v : List Lexeme} (op : Operator) (left : Sentence u) (right : Sentence v) :
      Sentence (u ++ op.lexeme :: v)
  | group {u : List Lexeme} (inner : Sentence u) : Sentence (.lparen :: (u ++ [.rparen]))

/-- A beginning of a sentence, which may be the whole sentence. -/
def Viable (w : List Lexeme) : Prop := ∃ v, Sentence (w ++ v)

theorem Viable.of_append {u v : List Lexeme} (h : Viable (u ++ v)) : Viable u := by
  obtain ⟨w, hw⟩ := h
  exact ⟨v ++ w, by rwa [← List.append_assoc]⟩

theorem Expr.sentence (e : Expr) : Sentence e.lexemes := by
  induction e with
  | number => exact .number
  | identifier => exact .identifier
  | binary op left span right ihl ihr =>
      simpa [Expr.lexemes, Expr.tokens] using Sentence.binary op ihl ihr
  | group opening inner closing ih => simpa [Expr.lexemes, Expr.tokens] using Sentence.group ih

/-- How far a word has come: whether an operand is awaited or complete, and how many parentheses
are open. -/
inductive Phase where
  | awaiting (depth : Nat)
  | complete (depth : Nat)
  deriving DecidableEq

namespace Phase

/-- The phase after one more terminal, unless the terminal cannot stand there. -/
def next : Phase → Lexeme → Option Phase
  | .awaiting d, .num | .awaiting d, .ident => some (.complete d)
  | .awaiting d, .lparen => some (.awaiting (d + 1))
  | .complete d, .plus | .complete d, .minus | .complete d, .times | .complete d, .divide =>
    some (.awaiting d)
  | .complete (d + 1), .rparen => some (.complete d)
  | _, _ => none

def read (p : Phase) (w : List Lexeme) : Option Phase := w.foldlM next p

@[simp] theorem read_nil (p : Phase) : p.read [] = some p := rfl

@[simp] theorem read_cons (p : Phase) (a : Lexeme) (w : List Lexeme) :
    p.read (a :: w) = (p.next a).bind (·.read w) := rfl

theorem read_append (p : Phase) (u v : List Lexeme) :
    p.read (u ++ v) = (p.read u).bind (·.read v) := by
  simp only [read, List.foldlM_append]
  rfl

theorem next_operator (d : Nat) (op : Operator) :
    (complete d).next op.lexeme = some (.awaiting d) := by
  cases op <;> rfl

end Phase

/-- A sentence is one operand, at any depth. -/
theorem Sentence.read {w : List Lexeme} (h : Sentence w) (d : Nat) :
    (Phase.awaiting d).read w = some (.complete d) := by
  induction h generalizing d with
  | number => rfl
  | identifier => rfl
  | binary op left right ihl ihr =>
      rw [Phase.read_append, ihl d, Option.bind_some, Phase.read_cons, Phase.next_operator,
        Option.bind_some, ihr d]
  | group inner ih =>
      rw [Phase.read_cons, Phase.next, Option.bind_some, Phase.read_append, ih (d + 1)]
      rfl

theorem Viable.read_ne_none {w : List Lexeme} (h : Viable w) :
    (Phase.awaiting 0).read w ≠ none := by
  obtain ⟨v, hv⟩ := h
  intro refused
  have := hv.read 0
  rw [Phase.read_append, refused] at this
  cases this

end Expression

end TableParsing
