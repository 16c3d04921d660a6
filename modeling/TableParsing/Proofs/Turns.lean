import TableParsing.Proofs.Expression.Choices
import TableParsing.Proofs.ItemList.Stack
import TableParsing.Proofs.Parsing.History
import TableParsing.Proofs.Parsing.Termination

/-!
# How many turns the shipped tables take

With the tables of expressions, each reduction is paid for by a token of its own: a number or an
identifier pays for the node over it, an operator or an opening parenthesis for the node over its
operands. With the tables of lists, the empty list comes free and any item or pair pays for the list
that ends with it. So parsing ends for all token lists, also with end marks in them.
-/

namespace TableParsing

open ParseTables

namespace Expression

variable {tokens : TokenList Lexeme}

/-- A run that returns a tree has shifted all tokens, and has reduced once for each but the closing
parentheses. -/
theorem counts_of_parse {t : Tree Lexeme Phrase}
    (h : (parseTables.parse tokens).result = .ok t) (d : Diagnostics) :
    ((parseTables.parse tokens).record d).parser.shifts = tokens.size ∧
      ((parseTables.parse tokens).record d).parser.reductions +
        (lexemes tokens).count .rparen = tokens.size := by
  obtain ⟨c, s, ending, ⟨e, rfl, _, result⟩ | ⟨_, _, result⟩⟩ :=
    exists_ending tokens settles_resolve
  · have parsed := result.symm.trans h
    split at parsed
    · next whole =>
        obtain ⟨_, shifts, reductions⟩ := ending.counters_record d
        refine ⟨shifts.trans whole, ?_⟩
        rw [← ending.reductions_add_count whole]
        exact congrArg (· + _) reductions
    · cases parsed
  · cases result.symm.trans h

end Expression

/-- Parsing with the shipped tables ends by itself, whatever the tokens. With those of expressions
there are never more reductions than shifts, and as many as tokens other than closing parentheses if
a tree is returned. With those of lists there is at most one more. -/
theorem parse_endsWithin :
    (∀ tokens : TokenList Expression.Lexeme, EndsWithin Expression.parseTables tokens 0 ∧
      ∀ t, (Expression.parseTables.parse tokens).result = .ok t → ∀ d : Diagnostics,
        ((Expression.parseTables.parse tokens).record d).parser.shifts = tokens.size ∧
          ((Expression.parseTables.parse tokens).record d).parser.reductions +
            (Expression.lexemes tokens).count .rparen = tokens.size) ∧
    ∀ tokens : TokenList ItemList.Lexeme, EndsWithin ItemList.parseTables tokens 1 := by
  constructor
  · intro tokens
    have pays : Pays Expression.parseTables tokens 0 := fun c reached =>
      Expression.reductions_le_shifts Expression.settles_resolve reached
    exact ⟨pays.endsWithin (by decide), fun t parsed => Expression.counts_of_parse parsed⟩
  · intro tokens
    have pays : Pays ItemList.parseTables tokens 1 := fun c reached =>
      ItemList.reductions_le reached
    exact pays.endsWithin (by decide)

def groupedNumber : TokenList Expression.Lexeme :=
  #[⟨.lparen, ⟨0, 1⟩⟩, ⟨.num, ⟨1, 2⟩⟩, ⟨.rparen, ⟨2, 3⟩⟩]

/-- Without tokens only the empty list is made, which takes as many turns as there may be. -/
theorem endsWithin_groupedNumber :
    (EndsWithin Expression.parseTables groupedNumber 0 ∧
      (Expression.parseTables.parse groupedNumber).turns.length = 6 ∧
      ((Expression.parseTables.parse groupedNumber).record {}).parser.shifts = 3 ∧
      ((Expression.parseTables.parse groupedNumber).record {}).parser.reductions + 1 = 3) ∧
    EndsWithin ItemList.parseTables #[] 1 ∧ (ItemList.parseTables.parse #[]).turns.length = 2 := by
  obtain ⟨expressions, lists⟩ := parse_endsWithin
  obtain ⟨ends, counts⟩ := expressions groupedNumber
  have parsed : (Expression.parseTables.parse groupedNumber).result =
      .ok (Expression.Expr.group ⟨0, 1⟩ (.number ⟨1, 2⟩) ⟨2, 3⟩).toTree := rfl
  obtain ⟨shifts, reductions⟩ := counts _ parsed {}
  exact ⟨⟨ends, rfl, shifts, reductions⟩, lists #[], rfl⟩

end TableParsing
