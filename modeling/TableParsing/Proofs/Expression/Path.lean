import TableParsing.Proofs.Expression.Grouping
import TableParsing.Proofs.Expression.Recognition

/-!
# The states of a parser as a path

The roots of the trees on the stack spell a word, and the states are those that the tables lead
through along it. That much holds for any tables whose resolver shifts only what a choice offers.
The tables of expressions know productions by their sizes alone. Still, whenever they reduce, the
right-hand side of the production stands on the stack, and there is a state to go on with. So only
one inconsistency ever shows: an end mark among the tokens is taken for the end.
-/

namespace TableParsing

namespace ParseTables

variable {T N P : Type} {tables : ParseTables T N P} {x : T ⊕ N} {word rest : List (T ⊕ N)}
variable {states : List StateId}

/-- The state to which the tables lead from a state along a symbol. A terminal is shifted, if need
be as the first action of a choice; for a nonterminal it is the state after a reduction. -/
def next? (tables : ParseTables T N P) (s : StateId) : T ⊕ N → Option StateId
  | .inl t =>
    match tables.action s t with
    | .shift target => some target
    | .ambig a =>
      match (tables.candidates a).1 with
      | .shift target => some target
      | _ => none
    | _ => none
  | .inr n => tables.goto s n

/-- The states that the tables lead through along a word. As on a stack, the last symbol and the
last state come first. -/
def path? (tables : ParseTables T N P) : List (T ⊕ N) → Option (List StateId)
  | [] => some [tables.start]
  | x :: word =>
    (tables.path? word).bind fun states =>
      (states.head?.bind (tables.next? · x)).map (· :: states)

/-- One more symbol leads one state further. -/
theorem path?_cons {s target : StateId} {below : List StateId}
    (along : tables.path? word = some (s :: below)) (leads : tables.next? s x = some target) :
    tables.path? (x :: word) = some (target :: s :: below) := by
  rw [path?, along, Option.bind_some, List.head?_cons, Option.bind_some, leads, Option.map_some]

theorem path?_of_cons (along : tables.path? (x :: word) = some states) :
    tables.path? word = some states.tail := by
  rw [path?] at along
  obtain ⟨before, way, last⟩ := Option.bind_eq_some_iff.mp along
  obtain ⟨target, _, rfl⟩ := Option.map_eq_some_iff.mp last
  exact way

/-- What is left of a path when the last symbols are taken off its word. -/
theorem path?_of_append (along : tables.path? (word ++ rest) = some states) :
    tables.path? rest = some (states.drop word.length) := by
  induction word generalizing states with
  | nil => exact along
  | cons x word ih =>
      have shorter := ih (path?_of_cons along)
      rwa [List.drop_tail] at shorter

/-- Wherever the resolver shifts, shifting is the first action of the choice. -/
def ShiftsOffered (tables : ParseTables T N P) : Prop :=
  ∀ a t target, tables.resolve a t = .shift target → (tables.candidates a).1 = .shift target

section Runs

variable [Terminal T] {tokens : TokenList T} {c d : Configuration T N}

/-- Shifting leads along the next terminal. -/
theorem next?_of_shift {target : StateId} (offered : tables.ShiftsOffered)
    (action : (tables.turn tokens c).action = .shift target) :
    tables.next? c.state (.inl (lookahead tokens c.index)) = some target := by
  cases entry : tables.action c.state (lookahead tokens c.index) with
  | ambig a =>
      rw [turn_action_of_ambig entry] at action
      simp only [next?, entry, offered a _ target action]
  | shift shifted =>
      rw [turn_action_of_plain entry nofun] at action
      obtain rfl := ParseAction.shift.inj action
      simp only [next?, entry]
  | reduce | accept | error | goto =>
      rw [turn_action_of_plain entry nofun] at action
      cases action

/-- A turn that goes on keeps the states on the path of the roots. -/
theorem path?_of_step (offered : tables.ShiftsOffered)
    (along : tables.path? (c.trees.map Tree.symbol) = some c.states)
    (goes : tables.step tokens c = .next d) :
    tables.path? (d.trees.map Tree.symbol) = some d.states := by
  cases advance_of_step goes with
  | @shift t target action read =>
      have leads := next?_of_shift offered action
      rw [lookahead, read] at leads
      have further := path?_cons along leads
      simpa [Configuration.shifted, Configuration.states] using further
  | @reduce p target top children trees popped below action onTrees onStates children_length
      popped_length goto =>
      rw [onTrees, onStates, List.map_append] at along
      have uncovered := path?_of_append along
      rw [List.length_map, children_length, ← popped_length, List.drop_left] at uncovered
      exact path?_cons (x := .inr (tables.lhs p)) uncovered goto

/-- In all configurations of a run, the states are the path of the roots. -/
theorem Reachable.path?_eq (h : Reachable tables tokens c) (offered : tables.ShiftsOffered) :
    tables.path? (c.trees.map Tree.symbol) = some c.states :=
  h.induction (motive := fun c => tables.path? (c.trees.map Tree.symbol) = some c.states) rfl
    fun _ _ _ along goes => path?_of_step offered along goes

end Runs

end ParseTables

namespace Expression

open ParseTables Stack

theorem shiftsOffered : parseTables.ShiftsOffered := by
  intro a t target action
  change resolve a t = .shift target at action
  change (candidates a).1 = .shift target
  obtain first | second := settles_resolve a t
  · rw [← first, action]
  · rw [action, candidates] at second
    split at second <;> cases second

/-- What a reduction needs: the right-hand side of the production stands on top of the stack, and
the state under it has a successor. -/
structure OnHandle (c : Configuration Lexeme Phrase) (p : Production) : Prop where
  roots : (c.trees.take p.size).reverse.map Tree.symbol = p.rhs
  successor : ∃ s, c.states[p.size]? = some s ∧ (goto s p.lhs).isSome

variable {tokens : TokenList Lexeme} {c : Configuration Lexeme Phrase} {p : Production}

/-- It is enough that the symbols of the production stand on frames. -/
theorem onHandle_of_frames {frames : List Frame} {children : List (Tree Lexeme Phrase)}
    {popped : List StateId} (onTrees : c.trees = children ++ frameTrees frames)
    (onStates : c.states = popped ++ frameStates frames)
    (symbols : children.reverse.map Tree.symbol = p.rhs) (popped_length : popped.length = p.size)
    (lhs : p.lhs = .expr) : OnHandle c p := by
  have children_length : children.length = p.size := by
    rw [← p.length_rhs, ← symbols, List.length_map, List.length_reverse]
  obtain ⟨below, split⟩ := frameStates_eq_cons frames
  constructor
  · rw [onTrees, ← children_length, List.take_left, symbols]
  · refine ⟨position frames, ?_, ?_⟩
    · rw [onStates, split, ← popped_length, List.getElem?_append_right (Nat.le_refl _),
        Nat.sub_self, List.getElem?_cons_zero]
    · rw [lhs, goto_position, Option.isSome_some]

/-- An entry of the table that lets a production be reduced, by itself or as a choice. -/
inductive Allows (p : Production) : Action → Prop where
  | plain : Allows p (.reduce p)
  | choice {a : AmbigId} (offered : (candidates a).2 = .reduce p) : Allows p (.ambig a)

theorem allows_of_turn (reduces : (parseTables.turn tokens c).action = .reduce p) :
    Allows p (action c.state (lookahead tokens c.index)) := by
  cases entry : action c.state (lookahead tokens c.index) with
  | ambig a =>
      have resolved : (parseTables.turn tokens c).action = resolve a (lookahead tokens c.index) :=
        turn_action_of_ambig entry
      apply Allows.choice
      obtain first | second := settles_resolve a (lookahead tokens c.index)
      · rw [← resolved, reduces, candidates] at first
        split at first <;> cases first
      · rw [← second, ← resolved, reduces]
  | reduce q =>
      have performed : (parseTables.turn tokens c).action = .reduce q :=
        turn_action_of_plain entry nofun
      obtain rfl := ParseAction.reduce.inj (performed.symm.trans reduces)
      exact .plain
  | shift | accept | error | goto =>
      have performed : (parseTables.turn tokens c).action = _ := turn_action_of_plain entry nofun
      cases performed.symm.trans reduces

section Entries

variable {q : Production} {t last : Lexeme}

theorem not_allows_beginExpression : ¬ Allows p (beginExpression t) := by
  cases t <;> nofun

theorem not_allows_afterExpression {other : Action} (plain : ¬ Allows p other) :
    ¬ Allows p (afterExpression last other t) := by
  unfold afterExpression
  split
  · nofun
  · split
    · exact plain
    · nofun

theorem eq_of_allows_endProduction (h : Allows p (endProduction q t)) : p = q := by
  rw [endProduction_eq] at h
  split at h
  · cases h
    rfl
  · cases h

/-- Also a choice leaves only the one production. -/
theorem eq_of_allows_afterOperands {op : Operator} (h : Allows p (afterOperands op.index t)) :
    p = op.production := by
  rw [afterOperands, operatorIndex?_eq] at h
  cases isOperator : Operator.ofLexeme? t with
  | some next =>
      rw [isOperator] at h
      obtain - | ⟨offered⟩ := h
      have second := congrArg Prod.snd (op.candidates_choice next)
      exact ParseAction.reduce.inj (offered.symm.trans second)
  | none =>
      rw [isOperator] at h
      exact eq_of_allows_endProduction h

end Entries

theorem Operator.rhs_production (op : Operator) :
    op.production.rhs = [.inr .expr, .inl op.lexeme, .inr .expr] := by
  cases op <;> rfl

theorem Operand.symbols_trees (o : Operand) :
    o.trees.reverse.map Tree.symbol = o.production.rhs := by
  cases o with
  | number | identifier => rfl
  | group opening inner closing =>
      simp only [trees, List.reverse_cons, List.reverse_nil, List.nil_append, List.cons_append,
        List.map_cons, List.map_nil, inner.derived_toTree.root, Tree.symbol_leaf]
      rfl

theorem Operand.length_states (o : Operand) : o.states.length = o.production.size := by
  cases o <;> rfl

theorem Operand.lhs_production (o : Operand) : o.production.lhs = .expr := by
  cases o <;> rfl

theorem Stack.Represents.action_operand {frames : List Frame} {o : Operand}
    (h : Represents ⟨frames, .operand o⟩ c) (t : Lexeme) :
    action c.state t = endProduction o.production t := by
  cases o <;> rw [h.state_eq rfl] <;> rfl

/-- Whatever has been read, a reduction finds the right-hand side of its production. -/
theorem Stack.Represents.onHandle {s : Stack} (h : s.Represents c)
    (reduces : (parseTables.turn tokens c).action = .reduce p) : OnHandle c p := by
  have allowed := allows_of_turn reduces
  match s, h with
  | ⟨frames, .awaited⟩, h =>
      obtain ⟨below, split⟩ := frameStates_eq_cons frames
      rw [h.state_eq split, action_position] at allowed
      exact absurd allowed not_allows_beginExpression
  | ⟨frames, .operand o⟩, h =>
      rw [h.action_operand] at allowed
      obtain rfl := eq_of_allows_endProduction allowed
      exact onHandle_of_frames h.trees h.states o.symbols_trees o.length_states o.lhs_production
  | ⟨[], .phrase e⟩, h
  | ⟨.opening _ :: frames, .phrase e⟩, h =>
      rw [h.state_eq rfl] at allowed
      exact absurd allowed (not_allows_afterExpression nofun)
  | ⟨.operation left op span :: frames, .phrase e⟩, h =>
      rw [h.state_eq rfl, afterPhrase, action_operandState] at allowed
      obtain rfl := eq_of_allows_afterOperands allowed
      have onTrees : c.trees =
          [e.toTree, .leaf ⟨op.lexeme, span⟩, left.toTree] ++ frameTrees frames := h.trees
      have onStates : c.states =
          [op.operandState, op.state, afterPhrase frames] ++ frameStates frames := h.states
      apply onHandle_of_frames onTrees onStates _ op.size_production.symm op.lhs_production
      rw [op.rhs_production]
      simp only [List.reverse_cons, List.reverse_nil, List.nil_append, List.cons_append,
        List.map_cons, List.map_nil, e.derived_toTree.root, left.derived_toTree.root,
        Tree.symbol_leaf]

/-- The failures that there are: a token or the end of the input is unexpected, or the tables
accept in front of an end mark among the tokens, where one tree is on the stack. -/
inductive Blames (tokens : TokenList Lexeme) : ParseFailure Lexeme Phrase Production → Prop where
  | token {t : Token Lexeme} (mem : t ∈ tokens) : Blames tokens (.unexpectedToken t)
  | ending : Blames tokens (.unexpectedEnd tokens.back?)
  | mark {i : Nat} {t : Token Lexeme} (read : tokens[i]? = some t)
      (mark : t.terminal = .finish) : Blames tokens (.badAccept 0 i tokens.size)

theorem blames_unexpected (tokens : TokenList Lexeme) (c : Configuration Lexeme Phrase) :
    Blames tokens (unexpected tokens c) := by
  unfold unexpected
  cases read : tokens[c.index]? with
  | some t => exact .token (Array.mem_of_getElem? read)
  | none => exact .ending

/-- No other failure ends a run. -/
theorem blames_of_step {f : ParseFailure Lexeme Phrase Production}
    (reached : Reachable parseTables tokens c) (fails : parseTables.step tokens c = .failed f) :
    Blames tokens f := by
  obtain ⟨s, hs, -⟩ := exists_visit settles_resolve reached
  have stops : Final parseTables tokens c := by
    intro d goes
    cases fails.symm.trans goes
  obtain ⟨e, -, atEnd, last⟩ | ⟨-, -, last⟩ := step_of_final settles_resolve hs stops
  · have ends := last.symm.trans fails
    split at ends
    · cases ends
    · next partly =>
        obtain rfl := TurnResult.failed.inj ends
        have inside : c.index < tokens.size :=
          Nat.lt_of_le_of_ne reached.conserved.index_le_size partly
        have read := Array.getElem?_eq_getElem inside
        rw [upcoming, read, Option.getD_some] at atEnd
        exact .mark read atEnd
  · obtain rfl := TurnResult.failed.inj (last.symm.trans fails)
    exact blames_unexpected tokens c

/-- In every configuration of a run over expression tokens, end marks allowed, the states are the
path of the tables along the roots of the trees, and a reduction finds the right-hand side of its
production on the stack and a state to go on with under it. So tables show themselves inconsistent
in one way only: they accept in front of an end mark before all tokens are consumed. -/
theorem states_along_roots (tokens : TokenList Lexeme) :
    (∀ c, Reachable parseTables tokens c →
      parseTables.path? (c.trees.map Tree.symbol) = some c.states ∧
      (∀ p, (parseTables.turn tokens c).action = .reduce p → OnHandle c p) ∧
      ∀ f, parseTables.step tokens c = .failed f → Blames tokens f) ∧
    ∀ f, (parseTables.parse tokens).result = .error f → Blames tokens f := by
  constructor
  · intro c reached
    refine ⟨reached.path?_eq shiftsOffered, ?_, fun f => blames_of_step reached⟩
    intro p reduces
    obtain ⟨s, hs, -⟩ := exists_visit settles_resolve reached
    exact hs.onHandle reduces
  · intro f failed
    obtain ⟨c, reached, -, -, last⟩ := parse_ends
      fun d (hd : Reachable (tablesWith resolve) tokens d) =>
        turnsTaken_lt_turnBound settles_resolve hd
    change Ends (parseTables.step tokens c) (parseTables.parse tokens).result at last
    rw [failed] at last
    generalize ended : parseTables.step tokens c = result at last
    cases last
    exact blames_of_step reached ended

/-- The number `1` with an end mark behind it is accepted too early. -/
example : (parseTables.parse #[⟨.num, ⟨0, 1⟩⟩, ⟨.finish, ⟨1, 1⟩⟩]).result =
    .error (.badAccept 0 1 2) := rfl

end Expression

end TableParsing
