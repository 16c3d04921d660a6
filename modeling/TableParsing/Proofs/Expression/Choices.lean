import TableParsing.Proofs.Expression.Recognition
import TableParsing.Proofs.Tree.Traversal

/-!
# What the settling of choices decides

A parser of expressions has a choice behind both operands of an operator, in front of the next one.
Whichever way such choices are settled, one by one and in any mixture, a run consumes the same
tokens: it stops at the first token that cannot continue a sentence, and the frames that are pending
there close in any case. Only how the operands are grouped differs. The number of reductions does
not, as a tree has two nodes for each token but the closing parentheses.
-/

namespace TableParsing

namespace Expression

open ParseTables Stack

/-- Two runs come to the same but for the shape of the tree. Both return trees with the same leaves
after as many shifts and reductions, or both fail for one cause behind the same token, and say so in
the same words. -/
inductive SameOutcome (run run' : ParseRun Lexeme Phrase Production) : Prop where
  | accepted {t u : Tree Lexeme Phrase} (result : run.result = .ok t)
      (result' : run'.result = .ok u)
      (leaves : Traversal.toList t.leafWalk = Traversal.toList u.leafWalk)
      (shifts : ∀ d, (run.record d).parser.shifts = (run'.record d).parser.shifts)
      (reductions : ∀ d, (run.record d).parser.reductions = (run'.record d).parser.reductions)
  | refused {cause : ParseFailure Lexeme Phrase Production} (result : run.result = .error cause)
      (result' : run'.result = .error cause)
      (message : ∀ d, (run.record d).message = (run'.record d).message)
      (consumed : ∀ d, (run.record d).parser.tokens = (run'.record d).parser.tokens)

section Settled

variable {resolve resolve' : AmbigId → Lexeme → Action} {tokens : TokenList Lexeme}
variable {c c' : Configuration Lexeme Phrase} {s s' : Stack}

namespace Ending

/-- A run that ends in front of something refused has come at least as far as any other. -/
theorem index_le_of_refused (h : Ending resolve tokens c s) (h' : Ending resolve' tokens c' s')
    (refused : s.phase.next (upcoming tokens c.index).terminal = none) :
    c'.index ≤ c.index := by
  by_cases further : c.index < c'.index
  · have inside : c.index < tokens.size := Nat.lt_of_lt_of_le further h'.index_le
    exact absurd (h'.viable_take further) (h.not_viable_take inside refused)
  · exact Nat.le_of_not_lt further

/-- Runs that end at the same token have read a word in the same phase. -/
theorem phase_eq (h : Ending resolve tokens c s) (h' : Ending resolve' tokens c' s')
    (same : c.index = c'.index) : s.phase = s'.phase := by
  have read := s.read_tokens
  rw [← h.lexemes_take, same, h'.lexemes_take, s'.read_tokens] at read
  exact (Option.some.inj read).symm

/-- The counters of a run are those of the configuration in which it ends. -/
theorem counters_record (h : Ending resolve tokens c s) (d : Diagnostics) :
    (((tablesWith resolve).parse tokens).record d).parser.tokens = c.index ∧
    (((tablesWith resolve).parse tokens).record d).parser.shifts = c.index ∧
    (((tablesWith resolve).parse tokens).record d).parser.reductions = c.reductions := by
  have shifts := h.reachable.conserved.index_eq_shifts
  rw [ParseRun.parser_of_record h.counts]
  simp [Configuration.counters, shifts]

/-- The expression that a run has read as a whole. -/
theorem tokens_of_phrase {e : Expr} (h : Ending resolve tokens c ⟨[], .phrase e⟩)
    (whole : c.index = tokens.size) : e.tokens = tokens.toList := by
  have read := h.tokens_eq
  rw [whole, List.take_of_length_le (by simp)] at read
  exact read

/-- Each node of the tree of a phrase stands for a shift or a reduction. -/
theorem reductions_add_index {e : Expr} (h : Ending resolve tokens c ⟨[], .phrase e⟩) :
    c.index + c.reductions = e.toTree.size := by
  have kept := h.reachable.conserved
  have size := kept.size_eq
  rw [h.represents.trees] at size
  simp only [trees, frameTrees, Tree.forestSize, Configuration.turnsTaken] at size
  rw [kept.index_eq_shifts]
  omega

/-- A run that has read an expression as a whole has reduced once for each token but the closing
parentheses. -/
theorem reductions_add_count {e : Expr} (h : Ending resolve tokens c ⟨[], .phrase e⟩)
    (whole : c.index = tokens.size) :
    c.reductions + (lexemes tokens).count .rparen = tokens.size := by
  have read := h.tokens_of_phrase whole
  have size := e.size_toTree_add_count
  -- The size follows from the tokens, and reductions are what is left of it after the shifts.
  rw [← h.reductions_add_index, Expr.lexemes, read, Array.length_toList] at size
  rw [lexemes]
  omega

/-- So any other run has made as many. -/
theorem same_counts {e e' : Expr} (h : Ending resolve tokens c ⟨[], .phrase e⟩)
    (h' : Ending resolve' tokens c' ⟨[], .phrase e'⟩) (whole : c.index = tokens.size)
    (whole' : c'.index = tokens.size) : e.tokens = e'.tokens ∧ c.reductions = c'.reductions := by
  refine ⟨(h.tokens_of_phrase whole).trans (h'.tokens_of_phrase whole').symm, ?_⟩
  have reductions := h.reductions_add_count whole
  have reductions' := h'.reductions_add_count whole'
  omega

/-- Where one run accepts, no other refuses. -/
theorem not_refused {e : Expr} (h : Ending resolve tokens c ⟨[], .phrase e⟩)
    (whole : c.index = tokens.size) (h' : Ending resolve' tokens c' s')
    (refused : s'.phase.next (upcoming tokens c'.index).terminal = none)
    (unfinished : (upcoming tokens c'.index).terminal = .finish → s'.phase ≠ .complete 0) :
    False := by
  have same : c'.index = c.index :=
    Nat.le_antisymm (whole ▸ h'.index_le) (h'.index_le_of_refused h refused)
  have finished : (upcoming tokens c'.index).terminal = .finish := by
    rw [same, whole]
    simp [upcoming]
  exact unfinished finished (h'.phase_eq h same)

end Ending

/-- How choices are settled decides only the shape of trees. -/
theorem sameOutcome_of_settles (unmarked : ∀ t ∈ tokens, t.terminal ≠ .finish)
    (settles : Settles resolve) (settles' : Settles resolve') :
    SameOutcome ((tablesWith resolve).parse tokens) ((tablesWith resolve').parse tokens) := by
  obtain ⟨c, s, ending, outcome⟩ := exists_ending tokens settles
  obtain ⟨c', s', ending', outcome'⟩ := exists_ending tokens settles'
  rcases outcome with ⟨e, rfl, atEnd, result⟩ | ⟨refused, unfinished, result⟩
  · have whole := ending.index_eq_size unmarked atEnd
    rcases outcome' with ⟨e', rfl, atEnd', result'⟩ | ⟨refused', unfinished', _⟩
    · have whole' := ending'.index_eq_size unmarked atEnd'
      obtain ⟨sameTokens, sameReductions⟩ := ending.same_counts ending' whole whole'
      refine .accepted (result.trans (if_pos whole)) (result'.trans (if_pos whole')) ?_ ?_ ?_
      · simp only [Tree.toList_leafWalk, Expr.frontier_toTree, sameTokens]
      · intro d
        rw [(ending.counters_record d).2.1, (ending'.counters_record d).2.1, whole, whole']
      · intro d
        rw [(ending.counters_record d).2.2, (ending'.counters_record d).2.2, sameReductions]
    · exact (ending.not_refused whole ending' refused' unfinished').elim
  · rcases outcome' with ⟨e', rfl, atEnd', _⟩ | ⟨refused', _, result'⟩
    · have whole' := ending'.index_eq_size unmarked atEnd'
      exact (ending'.not_refused whole' ending refused unfinished).elim
    · have sameIndex : c.index = c'.index :=
        Nat.le_antisymm (ending'.index_le_of_refused ending refused')
          (ending.index_le_of_refused ending' refused)
      have sameCause : (unexpected tokens c' : ParseFailure Lexeme Phrase Production) =
          unexpected tokens c := by
        rw [unexpected, unexpected, sameIndex]
      rw [sameCause] at result'
      refine .refused result result' ?_ ?_
      · intro d
        simp only [ParseRun.record, result, result']
      · intro d
        rw [(ending.counters_record d).1, (ending'.counters_record d).1, sameIndex]

end Settled

variable {resolve' : AmbigId → Lexeme → Action} {tokens : TokenList Lexeme}

/-- Any other way to settle choices accepts the same token lists, and comes to the same but for the
shape of the tree. -/
theorem parse_settled (settles : Settles resolve')
    (unmarked : ∀ t ∈ tokens, t.terminal ≠ .finish) :
    SameOutcome (parseTables.parse tokens) ((tablesWith resolve').parse tokens) :=
  sameOutcome_of_settles unmarked settles_resolve settles

/-- The difference `1 - 2 - 3`. -/
def difference : TokenList Lexeme :=
  #[⟨.num, ⟨0, 1⟩⟩, ⟨.minus, ⟨1, 2⟩⟩, ⟨.num, ⟨2, 3⟩⟩, ⟨.minus, ⟨3, 4⟩⟩, ⟨.num, ⟨4, 5⟩⟩]

/-- Shifting at every choice groups to the right, and decides nothing else. -/
theorem parse_shifted_difference :
    SameOutcome (parseTables.parse difference)
      ((tablesWith fun a _ => (candidates a).1).parse difference) ∧
    (parseTables.parse difference).result =
      .ok (Expr.binary .minus (.binary .minus (.number ⟨0, 1⟩) ⟨1, 2⟩ (.number ⟨2, 3⟩)) ⟨3, 4⟩
        (.number ⟨4, 5⟩)).toTree ∧
    ((tablesWith fun a _ => (candidates a).1).parse difference).result =
      .ok (Expr.binary .minus (.number ⟨0, 1⟩) ⟨1, 2⟩
        (.binary .minus (.number ⟨2, 3⟩) ⟨3, 4⟩ (.number ⟨4, 5⟩))).toTree :=
  ⟨parse_settled (fun _ _ => .inl rfl) (by decide), rfl, rfl⟩

end Expression

end TableParsing
