import TableParsing.Proofs.Expression.Precedence

/-!
# How little is pending

Where choices are settled by precedence, an operator is shifted behind another one only if it binds
tighter. So within a parenthesis at most two operators wait for their right operands, and the stack
of trees is as high as the open parentheses make it, however long the input is.

Each choice that is settled in front of an operator takes one waiting operator off the stack or
shifts the next one. So a run settles no more than two choices for each operator that it consumes.
-/

namespace TableParsing

namespace Expression

open ParseTables

def isOpening : Tree Lexeme Phrase → Bool
  | .leaf t => t.terminal = .lparen
  | .node _ _ => false

/-- The number of opening parentheses that stand on a stack of trees by themselves. -/
def openings (trees : List (Tree Lexeme Phrase)) : Nat := trees.countP isOpening

def isOperator (t : Token Lexeme) : Bool := (Operator.ofLexeme? t.terminal).isSome

def operators (tokens : List (Token Lexeme)) : Nat := tokens.countP isOperator

theorem isOperator_of_eq {t : Token Lexeme} {op : Operator} (reads : t.terminal = op.lexeme) :
    isOperator t = true := by
  rw [isOperator, reads, Operator.ofLexeme?_lexeme, Option.isSome_some]

/-- One more token adds itself if it is an operator. -/
theorem operators_take_succ (tokens : TokenList Lexeme) (i : Nat) :
    operators (tokens.toList.take (i + 1)) =
      operators (tokens.toList.take i) + if isOperator (upcoming tokens i) then 1 else 0 := by
  rw [operators, List.take_add_one, List.countP_append, upcoming, Array.getElem?_toList]
  cases tokens[i]? with
  | none => rfl
  | some t => rw [Option.toList_some, List.countP_singleton, Option.getD_some, operators]

theorem openings_cons (t : Tree Lexeme Phrase) (trees : List (Tree Lexeme Phrase)) :
    openings (t :: trees) = openings trees + if isOpening t then 1 else 0 :=
  List.countP_cons

theorem isOpening_toTree (e : Expr) : isOpening e.toTree = false := by
  cases e <;> rfl

theorem isOpening_operator (op : Operator) (span : Span) :
    isOpening (.leaf ⟨op.lexeme, span⟩) = false := by
  cases op <;> rfl

namespace Stack

/-- The number of operators that wait within the innermost parenthesis. -/
def waiting : List Frame → Nat
  | .operation _ _ _ :: frames => waiting frames + 1
  | _ => 0

/-- Each operator that waits binds tighter than those that wait below it. -/
theorem waiting_le_floor {frames : List Frame} (sorted : Sorted frames) :
    waiting frames ≤ floor frames := by
  induction frames with
  | nil => exact Nat.le_refl 0
  | cons f frames ih =>
      cases f with
      | opening => exact Nat.zero_le _
      | operation left op span =>
          obtain ⟨_, _, tighter, below⟩ := sorted
          exact Nat.lt_of_le_of_lt (ih below) tighter

theorem waiting_le_two {frames : List Frame} (sorted : Sorted frames) : waiting frames ≤ 2 :=
  Nat.le_of_lt_succ (Nat.lt_of_le_of_lt (waiting_le_floor sorted) (floor_lt_atom frames))

theorem openings_frameTrees (frames : List Frame) :
    openings (frameTrees frames) = depth frames := by
  induction frames with
  | nil => rfl
  | cons f frames ih =>
      cases f with
      | opening span =>
          rw [frameTrees, openings_cons, ih]
          rfl
      | operation left op span =>
          rw [frameTrees, openings_cons, openings_cons, ih, isOpening_toTree, isOpening_operator]
          rfl

/-- A parenthesis adds one tree to those below it, and each operator that waits adds two. -/
theorem length_frameTrees_le {frames : List Frame} (sorted : Sorted frames) :
    (frameTrees frames).length ≤ 5 * depth frames + 2 * waiting frames := by
  induction frames with
  | nil => exact Nat.le_refl 0
  | cons f frames ih =>
      cases f with
      | opening span =>
          have below := ih sorted
          have few : waiting frames ≤ 2 := waiting_le_two sorted
          simp only [frameTrees, depth, waiting, List.length_cons]
          omega
      | operation left op span =>
          have below := ih sorted.2.2.2
          simp only [frameTrees, depth, waiting, List.length_cons]
          omega

/-- The stack of trees is as high as the parentheses on it make it. -/
theorem Grown.length_trees_le {s : Stack} {next : Token Lexeme} (h : s.Grown next) :
    s.trees.length ≤ 5 * (openings s.trees + 1) := by
  match s, h with
  | ⟨frames, .awaited⟩, sorted =>
      have height := length_frameTrees_le sorted
      have few := waiting_le_two sorted
      rw [trees, openings_frameTrees]
      omega
  | ⟨frames, .phrase e⟩, ⟨sorted, _⟩ =>
      have height := length_frameTrees_le sorted
      have few := waiting_le_two sorted
      rw [trees, openings_cons, openings_frameTrees, isOpening_toTree, List.length_cons]
      omega
  | ⟨frames, .operand (.number span)⟩, ⟨sorted, _⟩
  | ⟨frames, .operand (.identifier span)⟩, ⟨sorted, _⟩ =>
      have height := length_frameTrees_le sorted
      have few := waiting_le_two sorted
      rw [trees, Operand.trees, List.cons_append, List.nil_append, openings_cons,
        openings_frameTrees, List.length_cons]
      omega
  | ⟨frames, .operand (.group opening inner closing)⟩, ⟨sorted, _⟩ =>
      have height := length_frameTrees_le sorted
      have few := waiting_le_two sorted
      have one : isOpening (.leaf ⟨.lparen, opening⟩) = true := rfl
      simp only [trees, Operand.trees, List.cons_append, List.nil_append, openings_cons,
        openings_frameTrees, List.length_cons, one, if_true]
      omega

/-- Whether there is a choice in front of a token: at a phrase, in front of an operator, if another
one waits. -/
def chooses (next : Token Lexeme) : Stack → Bool
  | ⟨frames, .phrase _⟩ => isOperator next && decide (0 < waiting frames)
  | _ => false

/-- How many of the two choices that the next operator pays for are left, at a phrase. -/
def credit (next : Token Lexeme) : Stack → Nat
  | ⟨frames, .phrase _⟩ => if isOperator next then 2 - waiting frames else 0
  | _ => 0

section Choices

variable {prefers : Operator → Operator → Bool} {next : Token Lexeme} {s s' : Stack}

/-- In front of anything else than an operator there is nothing to choose or to pay for. -/
theorem idle_of_not_isOperator (other : isOperator next = false) (s : Stack) :
    s.chooses next = false ∧ s.credit next = 0 := by
  match s with
  | ⟨frames, .awaited⟩ => exact ⟨rfl, rfl⟩
  | ⟨frames, .operand o⟩ => exact ⟨rfl, rfl⟩
  | ⟨frames, .phrase e⟩ => simp [chooses, credit, other]

/-- An operator that is shifted settles no more choices than it has paid for, and no other token
has any. -/
theorem credit_of_shift (rule : MoveRule prefers next s (.shift s')) :
    s.credit next + (if s.chooses next then 1 else 0) ≤ 2 * if isOperator next then 1 else 0 := by
  cases rule with
  | number | identifier | opening => simp [credit, chooses]
  | @operator frames e op reads =>
      simp only [credit, chooses, isOperator_of_eq reads, Bool.true_and, decide_eq_true_eq, if_true]
      split <;> omega
  | @closing frames span e reads =>
      have other : isOperator next = false := by rw [isOperator, reads]; rfl
      simp [idle_of_not_isOperator other]

/-- A choice that is settled by reducing takes an operator off those that wait. -/
theorem credit_of_reduce (grown : s.Grown next) (rule : MoveRule prefers next s (.reduce s')) :
    s.credit next + (if s.chooses next then 1 else 0) ≤ s'.credit next := by
  cases rule with
  | operand => simp [credit, chooses]
  | @operation frames left e o span =>
      have few : waiting frames + 1 ≤ 2 := waiting_le_two grown.1
      simp only [credit, chooses, waiting, Nat.succ_pos, decide_true, Bool.and_true]
      split <;> omega

/-- An operator behind a phrase is never refused. -/
theorem idle_of_refused (refused : s.phase.next next.terminal = none) :
    s.chooses next = false ∧ s.credit next = 0 := by
  match s, refused with
  | ⟨frames, .awaited⟩, _ => exact ⟨rfl, rfl⟩
  | ⟨frames, .operand o⟩, _ => exact ⟨rfl, rfl⟩
  | ⟨frames, .phrase e⟩, refused =>
      apply idle_of_not_isOperator
      rw [isOperator, Option.isSome_eq_false_iff, Option.isNone_iff_eq_none]
      cases found : Operator.ofLexeme? next.terminal with
      | none => rfl
      | some op =>
          rw [Operator.ofLexeme?_eq_some found, phase, Phase.next_operator] at refused
          cases refused

end Choices

end Stack

theorem beginExpression_ne_ambig (t : Lexeme) (a : AmbigId) : beginExpression t ≠ .ambig a := by
  cases t <;> nofun

theorem endProduction_ne_ambig (p : Production) (t : Lexeme) (a : AmbigId) :
    endProduction p t ≠ .ambig a := by
  cases t <;> nofun

theorem afterExpression_ne_ambig {last : Lexeme} {action : Action} {a : AmbigId}
    (plain : action ≠ .ambig a) (t : Lexeme) : afterExpression last action t ≠ .ambig a := by
  unfold afterExpression
  split
  · nofun
  · split
    · exact plain
    · nofun

section Runs

open Stack

variable {tokens : TokenList Lexeme} {c : Configuration Lexeme Phrase}

/-- Where a description has no choice, the tables have none. -/
theorem Stack.Represents.ne_ambig {s : Stack} {next : Token Lexeme} (hs : s.Represents c)
    (settled : s.chooses next = false) (a : AmbigId) :
    action c.state next.terminal ≠ .ambig a := by
  match s, hs with
  | ⟨frames, .awaited⟩, hs =>
      obtain ⟨below, split⟩ := frameStates_eq_cons frames
      rw [hs.state_eq split, action_position]
      exact beginExpression_ne_ambig _ a
  | ⟨frames, .operand (.number _)⟩, hs
  | ⟨frames, .operand (.identifier _)⟩, hs
  | ⟨frames, .operand (.group _ _ _)⟩, hs =>
      rw [hs.state_eq rfl]
      exact endProduction_ne_ambig _ _ a
  | ⟨[], .phrase e⟩, hs
  | ⟨.opening _ :: frames, .phrase e⟩, hs =>
      rw [hs.state_eq rfl]
      exact afterExpression_ne_ambig (by nofun) _
  | ⟨.operation _ op _ :: frames, .phrase e⟩, hs =>
      have other : isOperator next = false := by simpa [chooses, waiting] using settled
      rw [isOperator, Option.isSome_eq_false_iff, Option.isNone_iff_eq_none] at other
      rw [hs.state_eq rfl, afterPhrase, action_operandState, afterOperands, operatorIndex?_eq,
        other]
      exact endProduction_ne_ambig _ _ a

/-- What is counted as an ambiguity is a choice of the description. -/
theorem Stack.Represents.counted_ambiguities_le {s : Stack} (hs : s.Represents c) :
    (parseTables.counted tokens c).ambiguities ≤
      c.ambiguities + if s.chooses (upcoming tokens c.index) then 1 else 0 := by
  cases settled : s.chooses (upcoming tokens c.index) with
  | true => exact ParseTables.counted_ambiguities_le
  | false =>
      refine Nat.le_of_eq (counted_ambiguities_of_plain fun a => ?_)
      rw [← terminal_upcoming]
      exact hs.ne_ambig settled a

/-- What has been counted in front of a token is paid for by the operators before it and, as far as
they have been used, by the two choices of the token itself. -/
theorem exists_paid (h : Reachable parseTables tokens c) :
    ∃ s : Stack, s.Represents c ∧ Visits (prefers resolve) tokens s c.index ∧
      c.ambiguities ≤
        2 * operators (tokens.toList.take c.index) + s.credit (upcoming tokens c.index) := by
  refine h.induction
    (motive := fun c => ∃ s : Stack, s.Represents c ∧ Visits (prefers resolve) tokens s c.index ∧
      c.ambiguities ≤
        2 * operators (tokens.toList.take c.index) + s.credit (upcoming tokens c.index))
    ⟨_, .initial resolve, .start, Nat.zero_le _⟩ ?_
  rintro c d - ⟨s, hs, visits, paid⟩ goes
  have counts : d.ambiguities ≤ _ :=
    Nat.le_trans (Nat.le_of_eq (ambiguities_of_step goes)) hs.counted_ambiguities_le
  obtain ⟨s', hd, ⟨moves, index⟩ | ⟨moves, index⟩⟩ := exists_move_of_step settles_resolve hs goes
  · have pays := credit_of_shift (moves ▸ s.move_rule)
    refine ⟨s', hd, index ▸ visits.shift moves, ?_⟩
    rw [index, operators_take_succ]
    omega
  · have pays := credit_of_reduce visits.grown (moves ▸ s.move_rule)
    refine ⟨s', hd, index ▸ visits.reduce moves, ?_⟩
    rw [index]
    omega

/-- Where a run stops there is no choice, and nothing that is left to pay for. -/
theorem Stack.Represents.idle_of_final {s : Stack} (hs : s.Represents c)
    (stops : Final parseTables tokens c) :
    s.chooses (upcoming tokens c.index) = false ∧ s.credit (upcoming tokens c.index) = 0 := by
  obtain ⟨e, -, atEnd, -⟩ | ⟨refused, -, -⟩ := step_of_final settles_resolve hs stops
  · exact idle_of_not_isOperator (by rw [isOperator, atEnd]; rfl) s
  · exact idle_of_refused refused

/-- However long an input is, no more trees wait than the open parentheses account for: the stack
of trees holds at most five of them for each opening parenthesis on it, and five more. And a run,
whether it fails or not, settles at most two choices for each operator that it consumes. -/
theorem pending_bounds (tokens : TokenList Lexeme) (d : Diagnostics) :
    (∀ c, Reachable parseTables tokens c → c.trees.length ≤ 5 * (openings c.trees + 1)) ∧
      ((parseTables.parse tokens).record d).parser.ambiguities ≤
        2 * operators
          (tokens.toList.take ((parseTables.parse tokens).record d).parser.tokens) := by
  constructor
  · intro c reached
    obtain ⟨s, hs, visits⟩ := exists_visit settles_resolve reached
    rw [hs.trees]
    exact visits.grown.length_trees_le
  · obtain ⟨c, reached, stops, counts, -⟩ := parse_ends
      fun d (hd : Reachable (tablesWith resolve) tokens d) =>
        turnsTaken_lt_turnBound settles_resolve hd
    obtain ⟨s, hs, -, paid⟩ := exists_paid reached
    obtain ⟨settled, spent⟩ := hs.idle_of_final stops
    have counted : (parseTables.counted tokens c).ambiguities ≤ _ := hs.counted_ambiguities_le
    rw [settled] at counted
    have reported : ((parseTables.parse tokens).record d).parser = _ :=
      ParseRun.parser_of_record counts d
    rw [reported, Configuration.counters, counted_index]
    rw [spent] at paid
    exact Nat.le_trans counted paid

end Runs

end Expression

end TableParsing
