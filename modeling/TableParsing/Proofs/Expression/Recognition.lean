import TableParsing.Proofs.Expression.Stack
import TableParsing.Proofs.Parsing.Conservation

/-!
# Where a parser of expressions stops

However choices are settled, a parser of expressions stops at the first token that cannot continue
a sentence. What it has read can always be completed, by closing the frames; and the phase of what
it has read tells whether the next token can follow. Reductions change neither.

A run makes at most two turns for each token that it consumes, so its bound is never reached.
-/

namespace TableParsing

namespace Expression

def lexemes (tokens : TokenList Lexeme) : List Lexeme := tokens.toList.map Token.terminal

namespace Stack

def frameTokens : List Frame → List (Token Lexeme)
  | [] => []
  | .opening span :: frames => frameTokens frames ++ [⟨.lparen, span⟩]
  | .operation left op span :: frames =>
    frameTokens frames ++ (left.tokens ++ [⟨op.lexeme, span⟩])

def tokens : Stack → List (Token Lexeme)
  | ⟨frames, .awaited⟩ => frameTokens frames
  | ⟨frames, .operand o⟩ => frameTokens frames ++ o.toExpr.tokens
  | ⟨frames, .phrase e⟩ => frameTokens frames ++ e.tokens

/-- The number of open parentheses. -/
def depth : List Frame → Nat
  | [] => 0
  | .opening _ :: frames => depth frames + 1
  | .operation _ _ _ :: frames => depth frames

def phase : Stack → Phase
  | ⟨frames, .awaited⟩ => .awaiting (depth frames)
  | ⟨frames, .operand _⟩ => .complete (depth frames)
  | ⟨frames, .phrase _⟩ => .complete (depth frames)

theorem frontier_frameTrees (frames : List Frame) :
    Tree.forestFrontier (frameTrees frames).reverse = frameTokens frames := by
  induction frames with
  | nil => rfl
  | cons f frames ih =>
      cases f <;>
        simp [frameTrees, frameTokens, Tree.forestFrontier_append, Tree.forestFrontier,
          Tree.frontier, ih]

theorem frontier_trees (s : Stack) : Tree.forestFrontier s.trees.reverse = s.tokens := by
  match s with
  | ⟨frames, .awaited⟩ => exact frontier_frameTrees frames
  | ⟨frames, .operand o⟩ =>
      cases o <;>
        simp [trees, tokens, Operand.trees, Operand.toExpr, Expr.tokens,
          Tree.forestFrontier_append, Tree.forestFrontier, Tree.frontier, frontier_frameTrees]
  | ⟨frames, .phrase e⟩ =>
      simp [trees, tokens, Tree.forestFrontier_append, Tree.forestFrontier, frontier_frameTrees]

theorem size_frameTrees_le (frames : List Frame) :
    Tree.forestSize (frameTrees frames) ≤ 2 * (frameTokens frames).length := by
  induction frames with
  | nil => exact Nat.le_refl 0
  | cons f frames ih =>
      cases f with
      | opening =>
          simp only [frameTrees, frameTokens, Tree.forestSize, Tree.size, List.length_append,
            List.length_singleton]
          omega
      | operation left =>
          have := left.size_toTree_le
          simp only [frameTrees, frameTokens, Tree.forestSize, Tree.size, List.length_append,
            List.length_singleton]
          omega

theorem size_trees_le (s : Stack) : Tree.forestSize s.trees ≤ 2 * s.tokens.length := by
  match s with
  | ⟨frames, .awaited⟩ => exact size_frameTrees_le frames
  | ⟨frames, .operand o⟩ =>
      have below := size_frameTrees_le frames
      cases o with
      | number | identifier =>
          simp only [trees, tokens, Operand.trees, Operand.toExpr, Expr.tokens,
            Tree.forestSize_append, Tree.forestSize, Tree.size, List.length_append,
            List.length_singleton]
          omega
      | group opening inner closing =>
          have := inner.size_toTree_le
          simp only [trees, tokens, Operand.trees, Operand.toExpr, Expr.tokens,
            Tree.forestSize_append, Tree.forestSize, Tree.size, List.length_append,
            List.length_cons, List.length_nil]
          omega
  | ⟨frames, .phrase e⟩ =>
      have below := size_frameTrees_le frames
      have := e.size_toTree_le
      simp only [trees, tokens, Tree.forestSize, List.length_append]
      omega

/-- An expression behind frames can be completed, by closing the frames from the inside. -/
theorem viable_frameTokens (frames : List Frame) (e : Expr) :
    Viable ((frameTokens frames ++ e.tokens).map Token.terminal) := by
  induction frames generalizing e with
  | nil => exact ⟨[], by simpa [frameTokens, Expr.lexemes] using e.sentence⟩
  | cons f frames ih =>
      cases f with
      | opening span =>
          have closed := ih (.group span e default)
          refine Viable.of_append (v := [.rparen]) ?_
          simpa [frameTokens, Expr.tokens] using closed
      | operation left op span =>
          have closed := ih (.binary op left span e)
          simpa [frameTokens, Expr.tokens] using closed

/-- Whatever has been read begins a sentence. -/
theorem viable (s : Stack) : Viable (s.tokens.map Token.terminal) := by
  match s with
  | ⟨frames, .awaited⟩ =>
      have filled := viable_frameTokens frames (.number default)
      rw [List.map_append] at filled
      exact filled.of_append
  | ⟨frames, .operand o⟩ => exact viable_frameTokens frames o.toExpr
  | ⟨frames, .phrase e⟩ => exact viable_frameTokens frames e

theorem read_frameTokens (frames : List Frame) :
    (Phase.awaiting 0).read ((frameTokens frames).map Token.terminal) =
      some (.awaiting (depth frames)) := by
  induction frames with
  | nil => rfl
  | cons f frames ih =>
      cases f with
      | opening span =>
          rw [frameTokens, List.map_append, Phase.read_append, ih]
          rfl
      | operation left op span =>
          rw [frameTokens, List.map_append, Phase.read_append, ih, Option.bind_some,
            List.map_append, Phase.read_append]
          show ((Phase.awaiting _).read left.lexemes).bind _ = _
          rw [left.sentence.read, Option.bind_some, List.map_singleton, Phase.read_cons,
            Phase.next_operator]
          rfl

theorem read_frameTokens_append (frames : List Frame) (e : Expr) :
    (Phase.awaiting 0).read ((frameTokens frames ++ e.tokens).map Token.terminal) =
      some (.complete (depth frames)) := by
  rw [List.map_append, Phase.read_append, read_frameTokens]
  exact e.sentence.read _

/-- The phase of a description is that of the tokens it stands for. -/
theorem read_tokens (s : Stack) :
    (Phase.awaiting 0).read (s.tokens.map Token.terminal) = some s.phase := by
  match s with
  | ⟨frames, .awaited⟩ => exact read_frameTokens frames
  | ⟨frames, .operand o⟩ => exact read_frameTokens_append frames o.toExpr
  | ⟨frames, .phrase e⟩ => exact read_frameTokens_append frames e

/-- The innermost operator behind which an operand is awaited, unless a parenthesis comes first. -/
def pending? : List Frame → Option Operator
  | .operation _ op _ :: _ => some op
  | _ => none

/-- The moves by name, each with what it requires of the next token. A token is refused only where
no sentence goes on with it, and the end of the input only where a sentence cannot end. -/
inductive MoveRule (prefers : Operator → Operator → Bool) (next : Token Lexeme) :
    Stack → Move → Prop where
  | number {frames : List Frame} (reads : next.terminal = .num) :
      MoveRule prefers next ⟨frames, .awaited⟩ (.shift ⟨frames, .operand (.number next.span)⟩)
  | identifier {frames : List Frame} (reads : next.terminal = .ident) :
      MoveRule prefers next ⟨frames, .awaited⟩ (.shift ⟨frames, .operand (.identifier next.span)⟩)
  | opening {frames : List Frame} (reads : next.terminal = .lparen) :
      MoveRule prefers next ⟨frames, .awaited⟩ (.shift ⟨.opening next.span :: frames, .awaited⟩)
  | operator {frames : List Frame} {e : Expr} {op : Operator} (reads : next.terminal = op.lexeme)
      (preferred : ∀ o, pending? frames = some o → prefers o op) :
      MoveRule prefers next ⟨frames, .phrase e⟩ (.shift (push frames e op next.span))
  | closing {frames : List Frame} {span : Span} {e : Expr} (reads : next.terminal = .rparen) :
      MoveRule prefers next ⟨.opening span :: frames, .phrase e⟩
        (.shift ⟨frames, .operand (.group span e next.span)⟩)
  | operand {frames : List Frame} {o : Operand} (ends : endsOperand next.terminal) :
      MoveRule prefers next ⟨frames, .operand o⟩ (.reduce ⟨frames, .phrase o.toExpr⟩)
  | operation {frames : List Frame} {left e : Expr} {o : Operator} {span : Span}
      (ends : endsOperand next.terminal)
      (yields : ∀ op : Operator, next.terminal = op.lexeme → prefers o op = false) :
      MoveRule prefers next ⟨.operation left o span :: frames, .phrase e⟩
        (.reduce ⟨frames, .phrase (.binary o left span e)⟩)
  | accept {e : Expr} (ends : next.terminal = .finish) :
      MoveRule prefers next ⟨[], .phrase e⟩ (.accept e)
  | reject {s : Stack} (refused : s.phase.next next.terminal = none)
      (unfinished : next.terminal = .finish → s.phase ≠ .complete 0) :
      MoveRule prefers next s .reject

variable {prefers : Operator → Operator → Bool} {next : Token Lexeme}

theorem rule_awaited (frames : List Frame) :
    MoveRule prefers next ⟨frames, .awaited⟩ (move prefers next ⟨frames, .awaited⟩) := by
  obtain ⟨a, span⟩ := next
  cases a with
  | num => exact .number rfl
  | ident => exact .identifier rfl
  | lparen => exact .opening rfl
  | plus | minus | times | divide | rparen | finish => exact .reject rfl nofun

/-- Behind an operand, what does not end it is refused. -/
theorem rule_reject_of_not_endsOperand {s : Stack} {d : Nat} (complete : s.phase = .complete d)
    (continues : ¬ endsOperand next.terminal) : MoveRule prefers next s .reject := by
  obtain ⟨a, span⟩ := next
  refine .reject ?_ ?_
  · rw [complete]
    cases a with
    | num | ident | lparen => rfl
    | plus | minus | times | divide | rparen | finish => exact absurd rfl continues
  · rintro rfl
    exact absurd rfl continues

theorem rule_operand (frames : List Frame) (o : Operand) :
    MoveRule prefers next ⟨frames, .operand o⟩ (move prefers next ⟨frames, .operand o⟩) := by
  simp only [move]
  split
  · next ends => exact .operand ends
  · next continues => exact rule_reject_of_not_endsOperand rfl continues

theorem rule_phrase_start (e : Expr) :
    MoveRule prefers next ⟨[], .phrase e⟩ (move prefers next ⟨[], .phrase e⟩) := by
  simp only [move]
  split
  · next op isOperator =>
      apply MoveRule.operator (Operator.ofLexeme?_eq_some isOperator)
      intro o isPending
      cases isPending
  · next isOperator =>
      split
      · next ends => exact .accept ends
      · next continues =>
          obtain ⟨a, span⟩ := next
          refine .reject ?_ (absurd · continues)
          cases a with
          | plus | minus | times | divide => cases isOperator
          | num | ident | lparen | rparen | finish => rfl

theorem rule_phrase_opening (frames : List Frame) (span : Span) (e : Expr) :
    MoveRule prefers next ⟨.opening span :: frames, .phrase e⟩
      (move prefers next ⟨.opening span :: frames, .phrase e⟩) := by
  simp only [move]
  split
  · next op isOperator =>
      apply MoveRule.operator (Operator.ofLexeme?_eq_some isOperator)
      intro o isPending
      cases isPending
  · next isOperator =>
      split
      · next closes => exact .closing closes
      · next continues =>
          obtain ⟨a, span⟩ := next
          apply MoveRule.reject
          · cases a with
            | plus | minus | times | divide => cases isOperator
            | rparen => exact absurd rfl continues
            | num | ident | lparen | finish => rfl
          · intro _ finished
            cases finished

theorem rule_phrase_operation (frames : List Frame) (left : Expr) (o : Operator) (span : Span)
    (e : Expr) :
    MoveRule prefers next ⟨.operation left o span :: frames, .phrase e⟩
      (move prefers next ⟨.operation left o span :: frames, .phrase e⟩) := by
  simp only [move]
  split
  · next op isOperator =>
      have reads := Operator.ofLexeme?_eq_some isOperator
      split
      · next preferred =>
          apply MoveRule.operator reads
          intro p hp
          obtain rfl := Option.some.inj hp
          exact preferred
      · next yields =>
          refine .operation ?_ fun op' reads' => ?_
          · rw [reads]
            cases op <;> rfl
          · have same : Operator.ofLexeme? op'.lexeme = some op := reads' ▸ isOperator
            rw [Operator.ofLexeme?_lexeme] at same
            obtain rfl := Option.some.inj same
            exact Bool.eq_false_iff.mpr yields
  · next isOperator =>
      split
      · next ends =>
          apply MoveRule.operation ends
          intro op reads
          rw [reads, Operator.ofLexeme?_lexeme] at isOperator
          cases isOperator
      · next continues => exact rule_reject_of_not_endsOperand rfl continues

/-- Every move follows one of the rules. -/
theorem move_rule (s : Stack) : MoveRule prefers next s (s.move prefers next) := by
  match s with
  | ⟨frames, .awaited⟩ => exact rule_awaited frames
  | ⟨frames, .operand o⟩ => exact rule_operand frames o
  | ⟨[], .phrase e⟩ => exact rule_phrase_start e
  | ⟨.opening span :: frames, .phrase e⟩ => exact rule_phrase_opening frames span e
  | ⟨.operation left o span :: frames, .phrase e⟩ =>
      exact rule_phrase_operation frames left o span e

/-- The stacks that the moves come to over a token list, each with the number of tokens
consumed. -/
inductive Visits (prefers : Operator → Operator → Bool) (tokens : TokenList Lexeme) :
    Stack → Nat → Prop where
  | start : Visits prefers tokens ⟨[], .awaited⟩ 0
  | shift {s s' : Stack} {i : Nat} (before : Visits prefers tokens s i)
      (moves : s.move prefers (upcoming tokens i) = .shift s') : Visits prefers tokens s' (i + 1)
  | reduce {s s' : Stack} {i : Nat} (before : Visits prefers tokens s i)
      (moves : s.move prefers (upcoming tokens i) = .reduce s') : Visits prefers tokens s' i

end Stack

section Runs

open ParseTables Stack

variable {resolve : AmbigId → Lexeme → Action} {tokens : TokenList Lexeme}
variable {c : Configuration Lexeme Phrase}

/-- A turn that goes on is a move of the description that shifts or reduces. -/
theorem exists_move_of_step {d : Configuration Lexeme Phrase} {s : Stack}
    (settles : Settles resolve) (hs : s.Represents c)
    (goes : (tablesWith resolve).step tokens c = .next d) :
    ∃ s' : Stack, s'.Represents d ∧
      ((s.move (prefers resolve) (upcoming tokens c.index) = .shift s' ∧ d.index = c.index + 1) ∨
        (s.move (prefers resolve) (upcoming tokens c.index) = .reduce s' ∧
          d.index = c.index)) := by
  have described : (s.move (prefers resolve) (upcoming tokens c.index)).Describes tokens c _ :=
    step_describes settles hs
  rw [goes] at described
  cases moves : s.move (prefers resolve) (upcoming tokens c.index) with
  | shift s' =>
      rw [moves] at described
      obtain ⟨d', same, hd, index⟩ := described
      cases same
      exact ⟨s', hd, .inl ⟨rfl, index⟩⟩
  | reduce s' =>
      rw [moves] at described
      obtain ⟨d', same, hd, index⟩ := described
      cases same
      exact ⟨s', hd, .inr ⟨rfl, index⟩⟩
  | accept e =>
      rw [moves] at described
      change TurnResult.next d = ite _ _ _ at described
      split at described <;> cases described
  | reject =>
      rw [moves] at described
      cases described

/-- Every configuration of a run is described by a stack that the moves come to. -/
theorem exists_visit (settles : Settles resolve) (h : Reachable (tablesWith resolve) tokens c) :
    ∃ s : Stack, s.Represents c ∧ Visits (prefers resolve) tokens s c.index := by
  refine h.induction
    (motive := fun c => ∃ s : Stack, s.Represents c ∧ Visits (prefers resolve) tokens s c.index)
    ⟨_, .initial resolve, .start⟩ ?_
  rintro c d - ⟨s, hs, visits⟩ goes
  obtain ⟨s', hd, ⟨moves, index⟩ | ⟨moves, index⟩⟩ := exists_move_of_step settles hs goes
  · exact ⟨s', hd, index ▸ visits.shift moves⟩
  · exact ⟨s', hd, index ▸ visits.reduce moves⟩

/-- Every stack that the moves come to describes a configuration of the run. -/
theorem Stack.Visits.exists_reachable {s : Stack} {i : Nat} (settles : Settles resolve)
    (h : Visits (prefers resolve) tokens s i) :
    ∃ c, Reachable (tablesWith resolve) tokens c ∧ s.Represents c ∧ c.index = i := by
  induction h with
  | start => exact ⟨_, .refl _, .initial resolve, rfl⟩
  | shift before moves ih =>
      obtain ⟨c, reached, hs, rfl⟩ := ih
      have described : (Stack.move _ _ _).Describes tokens c _ := step_describes settles hs
      rw [moves] at described
      obtain ⟨d, goes, hd, index⟩ := described
      exact ⟨d, reached.trans (.single goes), hd, index⟩
  | reduce before moves ih =>
      obtain ⟨c, reached, hs, rfl⟩ := ih
      have described : (Stack.move _ _ _).Describes tokens c _ := step_describes settles hs
      rw [moves] at described
      obtain ⟨d, goes, hd, index⟩ := described
      exact ⟨d, reached.trans (.single goes), hd, index⟩

/-- The tokens of a description are those that have been consumed. -/
theorem tokens_eq_take {s : Stack} (hs : s.Represents c) (kept : Conserved tokens c) :
    s.tokens = tokens.toList.take c.index := by
  rw [← kept.frontier_eq, hs.trees, frontier_trees]

/-- Each reduction is paid for by a token of its own. -/
theorem reductions_le_shifts (settles : Settles resolve)
    (h : Reachable (tablesWith resolve) tokens c) : c.reductions ≤ c.shifts := by
  obtain ⟨s, hs, _⟩ := exists_visit settles h
  have kept := h.conserved
  have size := s.size_trees_le
  have index := kept.index_eq_shifts
  rw [← hs.trees, kept.size_eq, tokens_eq_take hs kept, List.length_take,
    Configuration.turnsTaken] at size
  omega

theorem turnsTaken_lt_turnBound (settles : Settles resolve)
    (h : Reachable (tablesWith resolve) tokens c) : c.turnsTaken < turnBound tokens := by
  have paid : c.reductions ≤ c.shifts + 0 := reductions_le_shifts settles h
  exact h.turnsTaken_lt paid (by decide)

/-- The configuration in which a run ends, with its description. -/
structure Ending (resolve : AmbigId → Lexeme → Action) (tokens : TokenList Lexeme)
    (c : Configuration Lexeme Phrase) (s : Stack) : Prop where
  reachable : Reachable (tablesWith resolve) tokens c
  represents : s.Represents c
  visits : Visits (prefers resolve) tokens s c.index
  counts : ((tablesWith resolve).parse tokens).counters? =
    some ((tablesWith resolve).counted tokens c).counters

namespace Ending

variable {s : Stack}

theorem tokens_eq (h : Ending resolve tokens c s) : s.tokens = tokens.toList.take c.index :=
  tokens_eq_take h.represents h.reachable.conserved

theorem lexemes_take (h : Ending resolve tokens c s) :
    (lexemes tokens).take c.index = s.tokens.map Token.terminal := by
  rw [h.tokens_eq, lexemes, List.map_take]

/-- What a run has consumed when it ends begins a sentence. -/
theorem viable_take (h : Ending resolve tokens c s) {n : Nat} (le : n ≤ c.index) :
    Viable ((lexemes tokens).take n) := by
  have whole := s.viable
  rw [← h.lexemes_take, ← List.take_append_drop n ((lexemes tokens).take c.index),
    List.take_take, Nat.min_eq_left le] at whole
  exact whole.of_append

/-- A token that the phase refuses cannot continue what has been consumed. -/
theorem not_viable_take (h : Ending resolve tokens c s) (inside : c.index < tokens.size)
    (refused : s.phase.next (upcoming tokens c.index).terminal = none) :
    ¬ Viable ((lexemes tokens).take (c.index + 1)) := by
  intro viable
  have lookup : (lexemes tokens)[c.index]? = some (upcoming tokens c.index).terminal := by
    simp [lexemes, upcoming, inside]
  refine viable.read_ne_none ?_
  rw [List.take_add_one, lookup, h.lexemes_take, Phase.read_append, s.read_tokens,
    Option.bind_some]
  simp [refused]

theorem index_le (h : Ending resolve tokens c s) : c.index ≤ tokens.size :=
  h.reachable.conserved.index_le_size

/-- If no token is an end mark, a run that sees one has consumed all tokens. -/
theorem index_eq_size (h : Ending resolve tokens c s)
    (unmarked : ∀ t ∈ tokens, t.terminal ≠ .finish)
    (atEnd : (upcoming tokens c.index).terminal = .finish) : c.index = tokens.size := by
  rcases Nat.lt_or_eq_of_le h.index_le with inside | whole
  · have read : upcoming tokens c.index = tokens[c.index] := by simp [upcoming, inside]
    exact absurd (read ▸ atEnd) (unmarked _ (Array.getElem_mem inside))
  · exact whole

end Ending

/-- Where no turn goes on, the input is over or what comes next is refused, and the turn tells
so. -/
theorem step_of_final {s : Stack} (settles : Settles resolve) (hs : s.Represents c)
    (stops : Final (tablesWith resolve) tokens c) :
    (∃ e, s = ⟨[], .phrase e⟩ ∧ (upcoming tokens c.index).terminal = .finish ∧
        (tablesWith resolve).step tokens c =
          if c.index = tokens.size then .accepted e.toTree
          else .failed (.badAccept 0 c.index tokens.size)) ∨
      (s.phase.next (upcoming tokens c.index).terminal = none ∧
        ((upcoming tokens c.index).terminal = .finish → s.phase ≠ .complete 0) ∧
        (tablesWith resolve).step tokens c = .failed (unexpected tokens c)) := by
  have described : (s.move (prefers resolve) (upcoming tokens c.index)).Describes tokens c _ :=
    step_describes settles hs
  have rule : MoveRule (prefers resolve) (upcoming tokens c.index) s _ := move_rule s
  generalize s.move (prefers resolve) (upcoming tokens c.index) = m at described rule
  cases m with
  | shift s' | reduce s' =>
      obtain ⟨d, goes, _⟩ := described
      exact absurd goes (stops d)
  | accept e =>
      cases rule with
      | accept atEnd => exact .inl ⟨e, rfl, atEnd, described⟩
  | reject =>
      cases rule with
      | reject refused unfinished => exact .inr ⟨refused, unfinished, described⟩

/-- A run ends by accepting or refusing what comes next, with the result that follows. -/
theorem exists_ending (tokens : TokenList Lexeme) (settles : Settles resolve) :
    ∃ c s, Ending resolve tokens c s ∧
      ((∃ e, s = ⟨[], .phrase e⟩ ∧ (upcoming tokens c.index).terminal = .finish ∧
          ((tablesWith resolve).parse tokens).result =
            if c.index = tokens.size then .ok e.toTree
            else .error (.badAccept 0 c.index tokens.size)) ∨
        (s.phase.next (upcoming tokens c.index).terminal = none ∧
          ((upcoming tokens c.index).terminal = .finish → s.phase ≠ .complete 0) ∧
          ((tablesWith resolve).parse tokens).result = .error (unexpected tokens c))) := by
  obtain ⟨c, reached, stops, counts, ends⟩ := parse_ends
    fun d (hd : Reachable (tablesWith resolve) tokens d) => turnsTaken_lt_turnBound settles hd
  obtain ⟨s, hs, visits⟩ := exists_visit settles reached
  refine ⟨c, s, ⟨reached, hs, visits, counts⟩, ?_⟩
  obtain ⟨e, described, atEnd, last⟩ | ⟨refused, unfinished, last⟩ :=
    step_of_final settles hs stops
  · refine .inl ⟨e, described, atEnd, ?_⟩
    rw [last] at ends
    split at ends
    · next whole =>
        rw [if_pos whole]
        exact ends.eq_ok
    · next partly =>
        rw [if_neg partly]
        exact ends.eq_error
  · rw [last] at ends
    exact .inr ⟨refused, unfinished, ends.eq_error⟩

end Runs

/-- The resolver of the tables settles choices. -/
theorem settles_resolve : Settles resolve := by
  intro a t
  unfold resolve
  generalize candidates a = pair
  obtain ⟨first, second⟩ := pair
  cases second with
  | reduce p =>
      dsimp only
      split
      all_goals simp
  | error | accept | shift | ambig | goto => exact .inl rfl

end Expression

end TableParsing
