import TableParsing.Proofs.Expression.Grouping
import TableParsing.Proofs.Expression.Recognition

/-!
# The trees that a parser of expressions returns

Choices are settled so that an operator is shifted behind another one only if it binds tighter.
Frames are then ordered from loose to tight up to the innermost parenthesis, and each phrase binds
tighter than the operator that waits for it. So every tree that is returned is grouped by
precedence.

Conversely a parser in front of the tokens of an ordered expression, where that expression fits,
comes to have read it. The ordered expression of a word is therefore what is returned for it, and
there is only one.
-/

namespace TableParsing

namespace Expression

open ParseTables

theorem prefers_resolve (op next : Operator) :
    prefers resolve op next = decide (op.level < next.level) := by
  cases op <;> cases next <;> decide

namespace Stack

/-- The level of the operator that waits for an operand, zero if there is none. -/
def floor (frames : List Frame) : Nat :=
  match pending? frames with
  | some op => op.level
  | none => 0

/-- Left operands may stand in front of their operators, and between parentheses later operators
bind tighter. -/
def Sorted : List Frame → Prop
  | [] => True
  | .opening _ :: frames => Sorted frames
  | .operation left op _ :: frames =>
    left.Ordered ∧ op.level ≤ left.level ∧ floor frames < op.level ∧ Sorted frames

/-- What has been read is ordered, and a phrase may stand behind its frames and in front of the
next token. -/
def Grown (next : Token Lexeme) : Stack → Prop
  | ⟨frames, .awaited⟩ => Sorted frames
  | ⟨frames, .operand o⟩ => Sorted frames ∧ o.toExpr.Ordered
  | ⟨frames, .phrase e⟩ =>
    Sorted frames ∧ e.Ordered ∧ floor frames < e.level ∧
      ∀ op : Operator, next.terminal = op.lexeme → op.level ≤ e.level

theorem floor_lt_of_preferred {frames : List Frame} {op : Operator}
    (preferred : ∀ o, pending? frames = some o → prefers resolve o op) :
    floor frames < op.level := by
  unfold floor
  cases innermost : pending? frames with
  | none => cases op <;> exact Nat.succ_pos _
  | some o =>
      have := preferred o innermost
      rw [prefers_resolve, decide_eq_true_eq] at this
      exact this

theorem floor_lt_atom (frames : List Frame) : floor frames < 3 := by
  unfold floor
  cases pending? frames with
  | none => exact Nat.succ_pos 2
  | some o => cases o <;> decide

theorem level_toExpr (o : Operand) : o.toExpr.level = 3 := by
  cases o <;> rfl

variable {next : Token Lexeme} {s s' : Stack}

/-- Consuming a token keeps the order, whatever token comes then. -/
theorem Grown.shift (h : s.Grown next) (rule : MoveRule (prefers resolve) next s (.shift s'))
    (after : Token Lexeme) : s'.Grown after := by
  cases rule with
  | number => exact ⟨h, trivial⟩
  | identifier => exact ⟨h, trivial⟩
  | opening => exact h
  | operator reads preferred =>
      obtain ⟨sorted, ordered, _, allowed⟩ := h
      exact ⟨ordered, allowed _ reads, floor_lt_of_preferred preferred, sorted⟩
  | closing =>
      obtain ⟨sorted, ordered, _, _⟩ := h
      exact ⟨sorted, ordered⟩

theorem Grown.reduce (h : s.Grown next) (rule : MoveRule (prefers resolve) next s (.reduce s')) :
    s'.Grown next := by
  cases rule with
  | operand =>
      obtain ⟨sorted, ordered⟩ := h
      refine ⟨sorted, ordered, ?_, fun op _ => ?_⟩
      · rw [level_toExpr]
        exact floor_lt_atom _
      · rw [level_toExpr]
        have := op.level_eq
        omega
  | operation ends yields =>
      obtain ⟨⟨leftOrdered, onLeft, onFloor, sorted⟩, ordered, onRight, _⟩ := h
      refine ⟨sorted, ⟨leftOrdered, ordered, onLeft, onRight⟩, onFloor, fun op reads => ?_⟩
      have := yields op reads
      rw [prefers_resolve, decide_eq_false_iff_not] at this
      exact Nat.le_of_not_lt this

variable {tokens : TokenList Lexeme} {i : Nat}

/-- Whatever a parser has read is ordered. -/
theorem Visits.grown (h : Visits (prefers resolve) tokens s i) : s.Grown (upcoming tokens i) := by
  induction h with
  | start => trivial
  | shift before moves ih => exact ih.shift (moves ▸ move_rule _) _
  | reduce before moves ih => exact ih.reduce (moves ▸ move_rule _)

/-- An operator is shifted behind a phrase if it binds tighter than the one that waits. -/
theorem move_operator {frames : List Frame} {e : Expr} {op : Operator}
    (reads : next.terminal = op.lexeme) (tighter : floor frames < op.level) :
    move (prefers resolve) next ⟨frames, .phrase e⟩ = .shift (push frames e op next.span) := by
  match frames with
  | [] => simp [move, reads]
  | .opening _ :: _ => simp [move, reads]
  | .operation _ o _ :: _ =>
      have tighter' : o.level < op.level := tighter
      simp [move, reads, prefers_resolve, tighter']

/-- An operation is reduced in front of whatever ends it and does not bind tighter. -/
theorem move_operation {frames : List Frame} {left e : Expr} {o : Operator} {span : Span}
    (ends : endsOperand next.terminal)
    (looser : ∀ op : Operator, next.terminal = op.lexeme → op.level ≤ o.level) :
    move (prefers resolve) next ⟨.operation left o span :: frames, .phrase e⟩ =
      .reduce ⟨frames, .phrase (.binary o left span e)⟩ := by
  simp only [move]
  split
  · next op isOperator =>
      have bound := looser op (Operator.ofLexeme?_eq_some isOperator)
      rw [prefers_resolve, if_neg (by simpa using bound)]
  · next => rw [if_pos ends]

/-- What stands in a token list at a position. -/
theorem upcoming_eq_of_drop {t : Token Lexeme} {rest : List (Token Lexeme)}
    (h : tokens.toList.drop i = t :: rest) :
    upcoming tokens i = t ∧ tokens.toList.drop (i + 1) = rest := by
  have head : tokens.toList[i]? = some t := by
    rw [← List.head?_drop, h, List.head?_cons]
  refine ⟨?_, ?_⟩
  · rw [upcoming, ← Array.getElem?_toList, head, Option.getD_some]
  · rw [← List.tail_drop, h, List.tail_cons]

theorem drop_add_of_drop {front rest : List (Token Lexeme)}
    (h : tokens.toList.drop i = front ++ rest) :
    tokens.toList.drop (i + front.length) = rest := by
  rw [← List.drop_drop, h, List.drop_left]

/-- An operand is reduced as soon as it is complete. -/
theorem Visits.atom {frames : List Frame} {o : Operand}
    (h : Visits (prefers resolve) tokens ⟨frames, .operand o⟩ i)
    (ends : endsOperand (upcoming tokens i).terminal) :
    Visits (prefers resolve) tokens ⟨frames, .phrase o.toExpr⟩ i :=
  h.reduce (by simp only [move, if_pos ends])

/-- A parser in front of the tokens of an ordered expression comes to have read it, if the
expression fits behind the frames and what comes then does not bind tighter. -/
theorem Visits.phrase {e : Expr} {frames : List Frame} {rest : List (Token Lexeme)}
    (ordered : e.Ordered) (fits : floor frames < e.level)
    (reads : tokens.toList.drop i = e.tokens ++ rest)
    (ends : endsOperand (upcoming tokens (i + e.tokens.length)).terminal)
    (looser : ∀ op : Operator, (upcoming tokens (i + e.tokens.length)).terminal = op.lexeme →
      op.level ≤ e.level)
    (h : Visits (prefers resolve) tokens ⟨frames, .awaited⟩ i) :
    Visits (prefers resolve) tokens ⟨frames, .phrase e⟩ (i + e.tokens.length) := by
  induction e generalizing frames i rest with
  | number span =>
      obtain ⟨here, _⟩ := upcoming_eq_of_drop reads
      have read : Visits _ tokens ⟨frames, .operand (.number span)⟩ (i + 1) :=
        h.shift (by rw [here]; rfl)
      exact read.atom ends
  | identifier span =>
      obtain ⟨here, _⟩ := upcoming_eq_of_drop reads
      have read : Visits _ tokens ⟨frames, .operand (.identifier span)⟩ (i + 1) :=
        h.shift (by rw [here]; rfl)
      exact read.atom ends
  | binary op left span right ihl ihr =>
      obtain ⟨leftOrdered, rightOrdered, onLeft, onRight⟩ := ordered
      have fits' : floor frames < op.level := fits
      have looser' : ∀ next : Operator, _ → next.level ≤ op.level := looser
      simp only [Expr.tokens, List.append_assoc, List.cons_append] at reads
      have count : i + (Expr.binary op left span right).tokens.length =
          i + left.tokens.length + 1 + right.tokens.length := by
        simp only [Expr.tokens, List.length_append, List.length_cons]
        omega
      rw [count] at ends looser' ⊢
      obtain ⟨here, after⟩ := upcoming_eq_of_drop (drop_add_of_drop reads)
      -- The operator does not bind tighter than its left operand, so that is read first.
      have onOperator := ihl leftOrdered (Nat.lt_of_lt_of_le fits' onLeft) reads
        (by rw [here]; cases op <;> rfl)
        (fun next same => by
          rw [here] at same
          have : next = op := by cases next <;> cases op <;> first | rfl | cases same
          rw [this]
          exact onLeft) h
      have onOperand : Visits _ tokens ⟨.operation left op span :: frames, .awaited⟩ _ :=
        onOperator.shift (by rw [here]; exact move_operator rfl fits')
      have fitsRight : floor (.operation left op span :: frames) < right.level := onRight
      have onEnd := ihr rightOrdered fitsRight after ends
        (fun next same => Nat.le_of_lt (Nat.lt_of_le_of_lt (looser' next same) onRight)) onOperand
      exact onEnd.reduce (move_operation ends looser')
  | group opening inner closing ih =>
      simp only [Expr.tokens, List.cons_append, List.append_assoc] at reads
      have count : i + (Expr.group opening inner closing).tokens.length =
          i + 1 + inner.tokens.length + 1 := by
        simp only [Expr.tokens, List.length_append, List.length_cons, List.length_nil]
        omega
      rw [count] at ends ⊢
      obtain ⟨here, after⟩ := upcoming_eq_of_drop reads
      obtain ⟨there, _⟩ := upcoming_eq_of_drop (drop_add_of_drop after)
      have onInner : Visits _ tokens ⟨.opening opening :: frames, .awaited⟩ (i + 1) :=
        h.shift (by rw [here]; rfl)
      have fitsInner : floor (.opening opening :: frames) < inner.level := inner.level_pos
      have onClosing := ih ordered fitsInner after (by rw [there]; rfl)
        (fun next same => by rw [there] at same; cases next <;> cases same) onInner
      have read : Visits _ tokens ⟨frames, .operand (.group opening inner closing)⟩ _ :=
        onClosing.shift (by rw [there]; rfl)
      exact read.atom ends

end Stack

open Stack

variable {tokens : TokenList Lexeme}

theorem lexemes_of_tokens {e : Expr} (h : e.tokens = tokens.toList) :
    lexemes tokens = e.lexemes := by
  rw [lexemes, ← h, Expr.lexemes]

/-- The tree of an ordered expression is returned for its tokens. -/
theorem parse_ordered {e : Expr} (ordered : e.Ordered) (h : e.tokens = tokens.toList) :
    (parseTables.parse tokens).result = .ok e.toTree := by
  have size : 0 + e.tokens.length = tokens.size := by simp [h]
  have atEnd : upcoming tokens (0 + e.tokens.length) = ⟨.finish, default⟩ := by
    simp [upcoming, size]
  have reads : tokens.toList.drop 0 = e.tokens ++ [] := by simp [h]
  have fits : floor [] < e.level := e.level_pos
  have visits : Visits (prefers resolve) tokens ⟨[], .phrase e⟩ (0 + e.tokens.length) :=
    Visits.start.phrase ordered fits reads (by rw [atEnd]; rfl)
      (fun op same => by rw [atEnd] at same; cases op <;> cases same)
  rw [size] at visits atEnd
  obtain ⟨c, reached, hs, index⟩ := visits.exists_reachable settles_resolve
  have described : (Stack.move _ _ _).Describes tokens c _ := step_describes settles_resolve hs
  rw [index, atEnd] at described
  change (tablesWith resolve).step tokens c = ite _ _ _ at described
  rw [if_pos index] at described
  obtain ⟨d, reachedD, stops, _, ends⟩ := parse_ends
    fun d (hd : Reachable (tablesWith resolve) tokens d) =>
      turnsTaken_lt_turnBound settles_resolve hd
  have same : c = d := reached.final_unique reachedD (by simp [Final, described]) stops
  subst same
  rw [described] at ends
  exact ends.eq_ok

/-- A returned tree is that of an ordered expression for all the tokens. -/
theorem exists_ordered_of_parse {t : Tree Lexeme Phrase}
    (h : (parseTables.parse tokens).result = .ok t) :
    ∃ e : Expr, e.toTree = t ∧ e.Ordered ∧ e.tokens = tokens.toList := by
  obtain ⟨c, s, ending, ⟨e, rfl, _, result⟩ | ⟨_, _, result⟩⟩ :=
    exists_ending tokens settles_resolve
  · have grown := ending.visits.grown
    obtain ⟨_, ordered, _, _⟩ := grown
    have same := h.symm.trans result
    split at same
    · next whole =>
        have read := ending.tokens_eq
        rw [whole, List.take_of_length_le (by simp)] at read
        exact ⟨e, (Except.ok.inj same).symm, ordered, read⟩
    · cases same
  · cases h.symm.trans result

/-- A tree is returned for every sentence. -/
theorem Sentence.exists_parse (h : Sentence (lexemes tokens)) :
    ∃ t, (parseTables.parse tokens).result = .ok t := by
  have viable : ∀ n, Viable ((lexemes tokens).take n) :=
    fun n => ⟨(lexemes tokens).drop n, by rwa [List.take_append_drop]⟩
  obtain ⟨c, s, ending, ⟨e, rfl, atEnd, result⟩ | ⟨refused, unfinished, _⟩⟩ :=
    exists_ending tokens settles_resolve
  all_goals rcases Nat.lt_or_eq_of_le ending.index_le with inside | whole
  · refine absurd (viable _) (ending.not_viable_take inside ?_)
    rw [atEnd]
    rfl
  · rw [if_pos whole] at result
    exact ⟨_, result⟩
  · exact absurd (viable _) (ending.not_viable_take inside refused)
  · have read := s.read_tokens
    rw [← ending.lexemes_take, whole, List.take_of_length_le (by simp [lexemes]), h.read 0] at read
    refine absurd (Option.some.inj read).symm (unfinished ?_)
    simp [upcoming, whole]

/-- A token list is accepted if and only if its terminals form a sentence. The tree that is returned
is the only one over these tokens that is a syntax tree grouped by precedence. -/
theorem parse_sentence (tokens : TokenList Lexeme) :
    ((∃ t, (parseTables.parse tokens).result = .ok t) ↔ Sentence (lexemes tokens)) ∧
      ∀ t, (parseTables.parse tokens).result = .ok t ↔
        ∀ u : Tree Lexeme Phrase,
          (u.frontier = tokens.toList ∧ Derived u ∧ Grouped u) ↔ u = t := by
  constructor
  · constructor
    · rintro ⟨t, result⟩
      obtain ⟨e, _, _, read⟩ := exists_ordered_of_parse result
      rw [lexemes_of_tokens read]
      exact e.sentence
    · exact Sentence.exists_parse
  · intro t
    constructor
    · intro result u
      constructor
      · rintro ⟨frontier, conditions⟩
        obtain ⟨e, rfl, ordered⟩ := Expr.exists_ordered_iff.mp conditions
        rw [Expr.frontier_toTree] at frontier
        exact Except.ok.inj ((parse_ordered ordered frontier).symm.trans result)
      · rintro rfl
        obtain ⟨e, rfl, ordered, read⟩ := exists_ordered_of_parse result
        exact ⟨e.frontier_toTree.trans read, Expr.exists_ordered_iff.mpr ⟨e, rfl, ordered⟩⟩
    · intro only
      obtain ⟨frontier, conditions⟩ := (only t).mpr rfl
      obtain ⟨e, rfl, ordered⟩ := Expr.exists_ordered_iff.mp conditions
      rw [Expr.frontier_toTree] at frontier
      exact parse_ordered ordered frontier

end Expression

end TableParsing
