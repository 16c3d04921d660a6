import TableParsing.Proofs.Expression.Grammar
import TableParsing.Proofs.Parsing.Execution

/-!
# The stacks of a parser of expressions

The two stacks of a parser of expressions are determined by what has been read: frames, which are
opening parentheses and left operands with their operators, and the operand that the parser is at.
`Stack` is that description and `Represents` relates it to a configuration. `Stack.move` says what
happens in front of a token, in terms of the description alone, and `step_describes` that the tables
do just that.

Choices may be settled in any way that picks one of the two actions. How they are settled enters
`move` as a preference between a pending operator and the next one.
-/

namespace TableParsing

namespace Expression

namespace Operator

def index : Operator → Nat
  | .plus => 0
  | .minus => 1
  | .times => 2
  | .divide => 3

def state (op : Operator) : StateId := operatorState op.index

/-- The state behind the right operand of an operator. -/
def operandState (op : Operator) : StateId := ⟨9 + op.index⟩

def production (op : Operator) : Production := operatorProduction op.index

/-- The choice between reducing at the operator `op` and shifting the operator `next`. -/
def choice (op next : Operator) : AmbigId := ⟨4 * op.index + next.index⟩

@[simp] theorem size_production (op : Operator) : op.production.size = 3 := by
  cases op <;> rfl

@[simp] theorem lhs_production (op : Operator) : op.production.lhs = .expr := by
  cases op <;> rfl

theorem candidates_choice (op next : Operator) :
    candidates (op.choice next) = (.shift next.state, .reduce op.production) := by
  cases op <;> cases next <;> rfl

end Operator

/-- The tables of expressions with choices settled by another function. -/
def tablesWith (resolve : AmbigId → Lexeme → Action) : ParseTables Lexeme Phrase Production :=
  { parseTables with resolve }

/-- A function settles choices if it takes one of the two actions that a choice leaves. -/
def Settles (resolve : AmbigId → Lexeme → Action) : Prop :=
  ∀ a t, resolve a t = (candidates a).1 ∨ resolve a t = (candidates a).2

/-- Whether the operator `next` is shifted behind the right operand of the operator `op`. -/
def prefers (resolve : AmbigId → Lexeme → Action) (op next : Operator) : Bool :=
  resolve (op.choice next) next.lexeme = .shift next.state

/-- Something that waits for an operand on its right. -/
inductive Frame where
  | opening (span : Span)
  | operation (left : Expr) (op : Operator) (span : Span)

/-- An operand that is complete although its symbols have not been replaced. -/
inductive Operand where
  | number (span : Span)
  | identifier (span : Span)
  | group (opening : Span) (inner : Expr) (closing : Span)

namespace Operand

def toExpr : Operand → Expr
  | .number span => .number span
  | .identifier span => .identifier span
  | .group opening inner closing => .group opening inner closing

/-- The states for the symbols of an operand, the current one first. -/
def states : Operand → List StateId
  | .number _ => [⟨3⟩]
  | .identifier _ => [⟨14⟩]
  | .group _ _ _ => [⟨13⟩, ⟨8⟩, ⟨2⟩]

/-- The trees for the symbols of an operand, the last one first. -/
def trees : Operand → List (Tree Lexeme Phrase)
  | .number span => [.leaf ⟨.num, span⟩]
  | .identifier span => [.leaf ⟨.ident, span⟩]
  | .group opening inner closing =>
    [.leaf ⟨.rparen, closing⟩, inner.toTree, .leaf ⟨.lparen, opening⟩]

def production : Operand → Production
  | .number _ => .number
  | .identifier _ => .identifier
  | .group _ _ _ => .parentheses

end Operand

inductive Focus where
  | awaited
  | operand (o : Operand)
  | phrase (e : Expr)

/-- What a parser of expressions has read. The innermost frame comes first. -/
structure Stack where
  frames : List Frame
  focus : Focus

namespace Stack

/-- The state in which an operand is awaited behind frames. -/
def position : List Frame → StateId
  | [] => ⟨0⟩
  | .opening _ :: _ => ⟨2⟩
  | .operation _ op _ :: _ => op.state

/-- The state in which an expression stands behind frames. -/
def afterPhrase : List Frame → StateId
  | [] => ⟨1⟩
  | .opening _ :: _ => ⟨8⟩
  | .operation _ op _ :: _ => op.operandState

def frameStates : List Frame → List StateId
  | [] => [⟨0⟩]
  | .opening _ :: frames => ⟨2⟩ :: frameStates frames
  | .operation _ op _ :: frames => op.state :: afterPhrase frames :: frameStates frames

def frameTrees : List Frame → List (Tree Lexeme Phrase)
  | [] => []
  | .opening span :: frames => .leaf ⟨.lparen, span⟩ :: frameTrees frames
  | .operation left op span :: frames =>
    .leaf ⟨op.lexeme, span⟩ :: left.toTree :: frameTrees frames

/-- The states of a parser that has read `s`, the current one first. -/
def states : Stack → List StateId
  | ⟨frames, .awaited⟩ => frameStates frames
  | ⟨frames, .operand o⟩ => o.states ++ frameStates frames
  | ⟨frames, .phrase _⟩ => afterPhrase frames :: frameStates frames

def trees : Stack → List (Tree Lexeme Phrase)
  | ⟨frames, .awaited⟩ => frameTrees frames
  | ⟨frames, .operand o⟩ => o.trees ++ frameTrees frames
  | ⟨frames, .phrase e⟩ => e.toTree :: frameTrees frames

theorem frameStates_eq_cons (frames : List Frame) :
    ∃ below, frameStates frames = position frames :: below := by
  rcases frames with _ | ⟨_ | _, _⟩ <;> exact ⟨_, rfl⟩

theorem goto_position (frames : List Frame) :
    goto (position frames) .expr = some (afterPhrase frames) := by
  rcases frames with _ | ⟨_ | ⟨_, op, _⟩, _⟩
  · rfl
  · rfl
  · cases op <;> rfl

theorem action_position (frames : List Frame) (a : Lexeme) :
    action (position frames) a = beginExpression a := by
  rcases frames with _ | ⟨_ | ⟨_, op, _⟩, _⟩
  · rfl
  · rfl
  · cases op <;> rfl

theorem action_operandState (op : Operator) (a : Lexeme) :
    action op.operandState a = afterOperands op.index a := by
  cases op <;> rfl

/-- A configuration with the stacks of a parser that has read `s`. -/
structure Represents (s : Stack) (c : Configuration Lexeme Phrase) : Prop where
  states : c.states = s.states
  trees : c.trees = s.trees

theorem Represents.initial (resolve : AmbigId → Lexeme → Action) :
    Represents ⟨[], .awaited⟩ (tablesWith resolve).initial := ⟨rfl, rfl⟩

end Stack

def endsOperand : Lexeme → Bool
  | .num | .ident | .lparen => false
  | _ => true

inductive Move where
  | shift (s : Stack)
  | reduce (s : Stack)
  | accept (e : Expr)
  | reject

namespace Stack

/-- The operator `op` at `span` becomes a frame with the expression in front of it. -/
def push (frames : List Frame) (e : Expr) (op : Operator) (span : Span) : Stack :=
  ⟨.operation e op span :: frames, .awaited⟩

/-- What happens in front of a token, given which operators are preferred to pending ones. -/
def move (prefers : Operator → Operator → Bool) (next : Token Lexeme) : Stack → Move
  | ⟨frames, .awaited⟩ =>
    match next.terminal with
    | .num => .shift ⟨frames, .operand (.number next.span)⟩
    | .ident => .shift ⟨frames, .operand (.identifier next.span)⟩
    | .lparen => .shift ⟨.opening next.span :: frames, .awaited⟩
    | _ => .reject
  | ⟨frames, .operand o⟩ =>
    if endsOperand next.terminal then .reduce ⟨frames, .phrase o.toExpr⟩ else .reject
  | ⟨[], .phrase e⟩ =>
    match Operator.ofLexeme? next.terminal with
    | some op => .shift (push [] e op next.span)
    | none => if next.terminal = .finish then .accept e else .reject
  | ⟨.opening span :: frames, .phrase e⟩ =>
    match Operator.ofLexeme? next.terminal with
    | some op => .shift (push (.opening span :: frames) e op next.span)
    | none =>
      if next.terminal = .rparen then .shift ⟨frames, .operand (.group span e next.span)⟩
      else .reject
  | ⟨.operation left o span :: frames, .phrase e⟩ =>
    match Operator.ofLexeme? next.terminal with
    | some op =>
      if prefers o op then .shift (push (.operation left o span :: frames) e op next.span)
      else .reduce ⟨frames, .phrase (.binary o left span e)⟩
    | none =>
      if endsOperand next.terminal then .reduce ⟨frames, .phrase (.binary o left span e)⟩
      else .reject

end Stack

/-- The next token, or an end mark behind the last one. -/
def upcoming (tokens : TokenList Lexeme) (index : Nat) : Token Lexeme :=
  tokens[index]?.getD ⟨.finish, default⟩

theorem terminal_upcoming (tokens : TokenList Lexeme) (index : Nat) :
    (upcoming tokens index).terminal = ParseTables.lookahead tokens index := by
  unfold upcoming ParseTables.lookahead
  cases tokens[index]? <;> rfl

/-- A token other than an end mark is in the list. -/
theorem getElem?_upcoming {tokens : TokenList Lexeme} {index : Nat}
    (h : (upcoming tokens index).terminal ≠ .finish) :
    tokens[index]? = some (upcoming tokens index) := by
  unfold upcoming at *
  cases hi : tokens[index]? with
  | none => simp [hi] at h
  | some t => rfl

/-- The result of a turn as a move tells it. -/
def Move.Describes (tokens : TokenList Lexeme) (c : Configuration Lexeme Phrase) :
    Move → TurnResult Lexeme Phrase Production → Prop
  | .shift s, r => ∃ d, r = .next d ∧ s.Represents d ∧ d.index = c.index + 1
  | .reduce s, r => ∃ d, r = .next d ∧ s.Represents d ∧ d.index = c.index
  | .accept e, r =>
    r = if c.index = tokens.size then .accepted e.toTree
      else .failed (.badAccept 0 c.index tokens.size)
  | .reject, r => r = .failed (ParseTables.unexpected tokens c)

section Simulation

open ParseTables Stack

variable {resolve : AmbigId → Lexeme → Action} {tokens : TokenList Lexeme}
variable {c : Configuration Lexeme Phrase} {frames : List Frame} {next : Token Lexeme}

/-- The tables' entry for the next token is performed, unless it is a choice. -/
theorem turn_action {entry : Action} (upcoming_eq : upcoming tokens c.index = next)
    (lookup : action c.state next.terminal = entry) (plain : ∀ a, entry ≠ .ambig a) :
    ((tablesWith resolve).turn tokens c).action = entry := by
  refine turn_action_of_plain ?_ plain
  rw [← terminal_upcoming, upcoming_eq]
  exact lookup

/-- For a choice, the resolver's answer is performed. -/
theorem turn_action_of_choice {a : AmbigId} (upcoming_eq : upcoming tokens c.index = next)
    (lookup : action c.state next.terminal = .ambig a) :
    ((tablesWith resolve).turn tokens c).action = resolve a next.terminal := by
  have entry : (tablesWith resolve).action c.state (lookahead tokens c.index) = .ambig a := by
    rw [← terminal_upcoming, upcoming_eq]
    exact lookup
  rw [turn_action_of_ambig entry, ← terminal_upcoming, upcoming_eq]
  rfl

/-- A shift puts the state and the leaf of the next token onto the stacks. -/
theorem describes_shift {s : Stack} {target : StateId}
    (upcoming_eq : upcoming tokens c.index = next)
    (proper : next.terminal ≠ .finish)
    (performed : ((tablesWith resolve).turn tokens c).action = .shift target)
    (states : target :: c.states = s.states) (trees : .leaf next :: c.trees = s.trees) :
    (Move.shift s).Describes tokens c ((tablesWith resolve).step tokens c) := by
  subst upcoming_eq
  refine ⟨_, step_of_shift performed (getElem?_upcoming proper), ⟨?_, ?_⟩, ?_⟩
  · simpa [Configuration.states, Configuration.shifted] using states
  · simpa [Configuration.shifted] using trees
  · simp [Configuration.shifted]

/-- A reduction puts an expression in the place of the symbols of a production. -/
theorem describes_reduce {p : Production} {e : Expr} {children : List (Tree Lexeme Phrase)}
    {popped : List StateId}
    (performed : ((tablesWith resolve).turn tokens c).action = .reduce p) (lhs : p.lhs = .expr)
    (onTrees : c.trees = children ++ frameTrees frames)
    (onStates : c.states = popped ++ frameStates frames)
    (children_length : children.length = p.size) (popped_length : popped.length = p.size)
    (tree : e.toTree = .node .expr children.reverse) :
    (Move.reduce ⟨frames, .phrase e⟩).Describes tokens c ((tablesWith resolve).step tokens c) := by
  obtain ⟨below, split⟩ := frameStates_eq_cons frames
  have goto : (tablesWith resolve).goto (position frames) ((tablesWith resolve).lhs p) =
      some (afterPhrase frames) := by
    show goto (position frames) p.lhs = _
    rw [lhs]
    exact goto_position frames
  have hs := step_of_reduce performed onTrees (onStates.trans (congrArg (popped ++ ·) split))
    children_length popped_length goto
  refine ⟨_, hs, ⟨?_, ?_⟩, ?_⟩
  · simp [Configuration.states, Configuration.reduced, Stack.states, split]
  · show Tree.node p.lhs children.reverse :: frameTrees frames = e.toTree :: frameTrees frames
    rw [tree, lhs]
  · simp [Configuration.reduced]

theorem describes_reject (upcoming_eq : upcoming tokens c.index = next)
    (lookup : action c.state next.terminal = .error) :
    Move.reject.Describes tokens c ((tablesWith resolve).step tokens c) :=
  step_of_error (turn_action upcoming_eq lookup nofun)

/-- The current state is the first one of the description. -/
theorem Stack.Represents.state_eq {s : Stack} {q : StateId} {below : List StateId}
    (h : s.Represents c) (states : s.states = q :: below) : c.state = q :=
  (List.cons.inj (h.states.trans states)).1

theorem step_awaited (h : Represents ⟨frames, .awaited⟩ c)
    (upcoming_eq : upcoming tokens c.index = next) (prefers : Operator → Operator → Bool) :
    (move prefers next ⟨frames, .awaited⟩).Describes tokens c
      ((tablesWith resolve).step tokens c) := by
  obtain ⟨below, split⟩ := frameStates_eq_cons frames
  have entry : action c.state next.terminal = beginExpression next.terminal := by
    rw [h.state_eq split, action_position]
  obtain ⟨a, span⟩ := next
  cases a with
  | num =>
      exact describes_shift upcoming_eq nofun (turn_action upcoming_eq entry nofun)
        (congrArg _ h.states) (congrArg _ h.trees)
  | ident =>
      exact describes_shift upcoming_eq nofun (turn_action upcoming_eq entry nofun)
        (congrArg _ h.states) (congrArg _ h.trees)
  | lparen =>
      exact describes_shift upcoming_eq nofun (turn_action upcoming_eq entry nofun)
        (congrArg _ h.states) (congrArg _ h.trees)
  | plus | minus | times | divide | rparen | finish => exact describes_reject upcoming_eq entry

theorem endProduction_eq (p : Production) (a : Lexeme) :
    endProduction p a = if endsOperand a then .reduce p else .error := by
  cases a <;> rfl

theorem step_operand {o : Operand} (h : Represents ⟨frames, .operand o⟩ c)
    (upcoming_eq : upcoming tokens c.index = next) (prefers : Operator → Operator → Bool) :
    (move prefers next ⟨frames, .operand o⟩).Describes tokens c
      ((tablesWith resolve).step tokens c) := by
  have entry : action c.state next.terminal = endProduction o.production next.terminal := by
    cases o <;> rw [h.state_eq rfl] <;> rfl
  rw [endProduction_eq] at entry
  simp only [move]
  split at entry
  · next ends =>
      rw [if_pos ends]
      refine describes_reduce (turn_action upcoming_eq entry nofun) ?_ h.trees h.states ?_ ?_ ?_
      all_goals cases o <;> rfl
  · next continues =>
      rw [if_neg continues]
      exact describes_reject upcoming_eq entry

/-- An operator behind an expression becomes a frame, where the action is to shift it. -/
theorem describes_push {e : Expr} {op : Operator} (h : Represents ⟨frames, .phrase e⟩ c)
    (upcoming_eq : upcoming tokens c.index = next) (terminal : next.terminal = op.lexeme)
    (performed : ((tablesWith resolve).turn tokens c).action = .shift op.state) :
    (Move.shift (push frames e op next.span)).Describes tokens c
      ((tablesWith resolve).step tokens c) := by
  refine describes_shift upcoming_eq ?_ performed ?_ ?_
  · rw [terminal]
    cases op <;> nofun
  · rw [h.states]
    rfl
  · show .leaf next :: c.trees = .leaf ⟨op.lexeme, next.span⟩ :: e.toTree :: frameTrees frames
    rw [h.trees, ← terminal]
    rfl

theorem operatorIndex?_eq (a : Lexeme) :
    operatorIndex? a = (Operator.ofLexeme? a).map Operator.index := by
  cases a <;> rfl

theorem step_phrase_start {e : Expr} (h : Represents ⟨[], .phrase e⟩ c)
    (upcoming_eq : upcoming tokens c.index = next) (prefers : Operator → Operator → Bool) :
    (move prefers next ⟨[], .phrase e⟩).Describes tokens c
      ((tablesWith resolve).step tokens c) := by
  have entry : action c.state next.terminal = afterExpression .finish .accept next.terminal := by
    rw [h.state_eq rfl]
    rfl
  rw [afterExpression, operatorIndex?_eq] at entry
  cases isOperator : Operator.ofLexeme? next.terminal with
  | some op =>
      rw [isOperator] at entry
      simp only [move, isOperator]
      exact describes_push h upcoming_eq (Operator.ofLexeme?_eq_some isOperator)
        (turn_action upcoming_eq entry nofun)
  | none =>
      rw [isOperator] at entry
      simp only [move, isOperator]
      split
      · next ends =>
          rw [ends] at entry
          exact step_of_accept (turn_action upcoming_eq (ends ▸ entry) nofun) h.trees
      · next continues =>
          simp only [Option.map_none, if_neg continues] at entry
          exact describes_reject upcoming_eq entry

theorem step_phrase_opening {e : Expr} {span : Span}
    (h : Represents ⟨.opening span :: frames, .phrase e⟩ c)
    (upcoming_eq : upcoming tokens c.index = next) (prefers : Operator → Operator → Bool) :
    (move prefers next ⟨.opening span :: frames, .phrase e⟩).Describes tokens c
      ((tablesWith resolve).step tokens c) := by
  have entry : action c.state next.terminal =
      afterExpression .rparen (.shift ⟨13⟩) next.terminal := by
    rw [h.state_eq rfl]
    rfl
  rw [afterExpression, operatorIndex?_eq] at entry
  cases isOperator : Operator.ofLexeme? next.terminal with
  | some op =>
      rw [isOperator] at entry
      simp only [move, isOperator]
      exact describes_push h upcoming_eq (Operator.ofLexeme?_eq_some isOperator)
        (turn_action upcoming_eq entry nofun)
  | none =>
      rw [isOperator] at entry
      simp only [move, isOperator]
      split
      · next closes =>
          simp only [Option.map_none, if_pos closes] at entry
          refine describes_shift upcoming_eq (by rw [closes]; nofun)
            (turn_action upcoming_eq entry nofun) (congrArg _ h.states) ?_
          show .leaf next :: c.trees = .leaf ⟨.rparen, next.span⟩ :: e.toTree :: _
          rw [h.trees, ← closes]
          rfl
      · next continues =>
          simp only [Option.map_none, if_neg continues] at entry
          exact describes_reject upcoming_eq entry

theorem step_phrase_operation {e left : Expr} {o : Operator} {span : Span}
    (settles : Settles resolve)
    (h : Represents ⟨.operation left o span :: frames, .phrase e⟩ c)
    (upcoming_eq : upcoming tokens c.index = next) :
    (move (prefers resolve) next ⟨.operation left o span :: frames, .phrase e⟩).Describes tokens c
      ((tablesWith resolve).step tokens c) := by
  have entry : action c.state next.terminal = afterOperands o.index next.terminal := by
    rw [h.state_eq rfl]
    exact action_operandState o _
  have onTrees : c.trees =
      [e.toTree, .leaf ⟨o.lexeme, span⟩, left.toTree] ++ frameTrees frames := h.trees
  have onStates : c.states = [o.operandState, o.state, afterPhrase frames] ++ frameStates frames :=
    h.states
  have reduces (performed : ((tablesWith resolve).turn tokens c).action = .reduce o.production) :
      (Move.reduce ⟨frames, .phrase (.binary o left span e)⟩).Describes tokens c
        ((tablesWith resolve).step tokens c) :=
    describes_reduce performed o.lhs_production onTrees onStates o.size_production.symm
      o.size_production.symm rfl
  rw [afterOperands, operatorIndex?_eq] at entry
  cases isOperator : Operator.ofLexeme? next.terminal with
  | some op =>
      have terminal := Operator.ofLexeme?_eq_some isOperator
      rw [isOperator] at entry
      have performed : ((tablesWith resolve).turn tokens c).action =
          resolve (o.choice op) op.lexeme := terminal ▸ turn_action_of_choice upcoming_eq entry
      simp only [move, isOperator]
      split
      · next preferred =>
          refine describes_push h upcoming_eq terminal ?_
          rw [performed]
          simpa only [prefers, decide_eq_true_eq] using preferred
      · next yields =>
          have answers := settles (o.choice op) op.lexeme
          rw [o.candidates_choice op] at answers
          rw [prefers, decide_eq_true_eq] at yields
          exact reduces (performed.trans (answers.resolve_left yields))
  | none =>
      rw [isOperator] at entry
      simp only [Option.map_none, endProduction_eq] at entry
      simp only [move, isOperator]
      split
      · next ends =>
          rw [if_pos ends] at entry
          exact reduces (turn_action upcoming_eq entry nofun)
      · next continues =>
          rw [if_neg continues] at entry
          exact describes_reject upcoming_eq entry

/-- The tables do what the description of the stacks says. -/
theorem step_describes {s : Stack} (settles : Settles resolve) (h : s.Represents c) :
    (s.move (prefers resolve) (upcoming tokens c.index)).Describes tokens c
      ((tablesWith resolve).step tokens c) := by
  match s, h with
  | ⟨_, .awaited⟩, h => exact step_awaited h rfl _
  | ⟨_, .operand _⟩, h => exact step_operand h rfl _
  | ⟨[], .phrase _⟩, h => exact step_phrase_start h rfl _
  | ⟨.opening _ :: _, .phrase _⟩, h => exact step_phrase_opening h rfl _
  | ⟨.operation _ _ _ :: _, .phrase _⟩, h => exact step_phrase_operation settles h rfl

end Simulation

end Expression

end TableParsing
