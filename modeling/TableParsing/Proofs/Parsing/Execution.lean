import Mathlib.Logic.Relation
import TableParsing.Parsing.Run

/-!
# Runs of a parser as sequences of turns

A run that is bounded by a number of turns is taken apart into single turns. `step` says what one
turn makes of a configuration, `Advance` lists the two ways in which a turn can go on, and `Reaches`
is any number of turns. Nothing is assumed of the tables.

Every turn that goes on is one shift or one reduction, so the counters of a configuration tell how
many turns led to it. A run whose configurations stay below its bound therefore ends by itself, in
a configuration from which no turn goes on, and there is only one such configuration.
-/

namespace TableParsing

namespace Configuration

variable {T N : Type}

/-- The number of turns that led from the start to a configuration. -/
def turnsTaken (c : Configuration T N) : Nat := c.shifts + c.reductions

/-- A configuration after consuming the token `t` and entering the state `s`. -/
def shifted (c : Configuration T N) (t : Token T) (s : StateId) : Configuration T N :=
  { c with
    state := s
    below := c.state :: c.below
    trees := .leaf t :: c.trees
    index := c.index + 1
    shifts := c.shifts + 1 }

/-- A configuration after putting a node over `children` onto the remaining `trees` and entering
the state `s` above `below`. -/
def reduced (c : Configuration T N) (n : N) (children trees : List (Tree T N))
    (below : List StateId) (s : StateId) : Configuration T N :=
  { c with
    state := s
    below := below
    trees := .node n children.reverse :: trees
    reductions := c.reductions + 1 }

end Configuration

namespace ParseTables

variable {T N P : Type} {tables : ParseTables T N P} {tokens : TokenList T}
variable {c d e : Configuration T N}

/-- Counting an ambiguity leaves the stacks and all other counters alone. -/
theorem countAmbiguity_eq (t : Turn T P) (c : Configuration T N) :
    countAmbiguity t c =
      { c with ambiguities := c.ambiguities + if t.ambiguity?.isSome then 1 else 0 } := by
  unfold countAmbiguity
  cases t.ambiguity? <;> rfl

/-- Shifting goes on exactly if there is a token left. -/
theorem shift_eq (next : T) (s : StateId) :
    (shift tokens c next s : TurnResult T N P) =
      match tokens[c.index]? with
      | none => .failed (.shiftAtEnd next)
      | some t => .next (c.shifted t s) := rfl

theorem splitFirst?_eq_some {α : Type} {n : Nat} {xs first rest : List α}
    (h : splitFirst? n xs = some (first, rest)) : xs = first ++ rest ∧ first.length = n := by
  rw [splitFirst?_eq] at h
  split at h
  · next bound =>
      obtain ⟨rfl, rfl⟩ := Prod.mk.inj (Option.some.inj h)
      exact ⟨(List.take_append_drop n xs).symm, by simp [bound]⟩
  · cases h

/-- Reducing goes on if enough trees and states are on the stacks and the state under them has a
successor. -/
theorem reduce_eq_next {p : P} {s top : StateId} {children trees : List (Tree T N)}
    {popped below : List StateId} (onTrees : c.trees = children ++ trees)
    (onStates : c.states = popped ++ top :: below)
    (children_length : children.length = tables.size p)
    (popped_length : popped.length = tables.size p)
    (goto : tables.goto top (tables.lhs p) = some s) :
    tables.reduce c p = .next (c.reduced (tables.lhs p) children trees (top :: below) s) := by
  have first : splitFirst? (tables.size p) c.trees = some (children, trees) := by
    rw [splitFirst?_eq, onTrees, ← children_length]
    simp
  have second : splitFirst? (tables.size p) c.states = some (popped, top :: below) := by
    rw [splitFirst?_eq, onStates, ← popped_length]
    simp
  rw [reduce, first, second]
  simp only [goto]
  rfl

/-- What a turn that does not go on makes of a run. -/
inductive Ends : TurnResult T N P → Except (ParseFailure T N P) (Tree T N) → Prop where
  | accepted (t : Tree T N) : Ends (.accepted t) (.ok t)
  | failed (f : ParseFailure T N P) : Ends (.failed f) (.error f)

theorem Ends.eq_ok {t : Tree T N} {result : Except (ParseFailure T N P) (Tree T N)}
    (h : Ends (.accepted t) result) : result = .ok t := by
  cases h
  rfl

theorem Ends.eq_error {f : ParseFailure T N P} {result : Except (ParseFailure T N P) (Tree T N)}
    (h : Ends (.failed f) result) : result = .error f := by
  cases h
  rfl

variable [Terminal T]

/-- A configuration together with the ambiguity that its next turn resolves. -/
def counted (tables : ParseTables T N P) (tokens : TokenList T) (c : Configuration T N) :
    Configuration T N :=
  countAmbiguity (tables.turn tokens c) c

@[simp] theorem counted_state : (tables.counted tokens c).state = c.state := by
  rw [counted, countAmbiguity_eq]

@[simp] theorem counted_below : (tables.counted tokens c).below = c.below := by
  rw [counted, countAmbiguity_eq]

@[simp] theorem counted_states : (tables.counted tokens c).states = c.states := by
  rw [counted, countAmbiguity_eq]
  rfl

@[simp] theorem counted_trees : (tables.counted tokens c).trees = c.trees := by
  rw [counted, countAmbiguity_eq]

@[simp] theorem counted_index : (tables.counted tokens c).index = c.index := by
  rw [counted, countAmbiguity_eq]

@[simp] theorem counted_shifts : (tables.counted tokens c).shifts = c.shifts := by
  rw [counted, countAmbiguity_eq]

@[simp] theorem counted_reductions : (tables.counted tokens c).reductions = c.reductions := by
  rw [counted, countAmbiguity_eq]

@[simp] theorem turn_lookahead :
    (tables.turn tokens c).lookahead = lookahead tokens c.index := by
  simp only [turn]
  split <;> rfl

/-- A table entry that is no ambiguity is the action of the turn. -/
theorem turn_action_of_plain {action : ParseAction P}
    (entry : tables.action c.state (lookahead tokens c.index) = action)
    (plain : ∀ a, action ≠ .ambig a) : (tables.turn tokens c).action = action := by
  simp only [turn]
  split
  · next a h => exact absurd (entry.symm.trans h) (plain a)
  · exact entry

/-- For an ambiguity, the action of the turn is what the resolver answers. -/
theorem turn_action_of_ambig {a : AmbigId}
    (entry : tables.action c.state (lookahead tokens c.index) = .ambig a) :
    (tables.turn tokens c).action = tables.resolve a (lookahead tokens c.index) := by
  simp only [turn, entry]

def step (tables : ParseTables T N P) (tokens : TokenList T) (c : Configuration T N) :
    TurnResult T N P :=
  let t := tables.turn tokens c
  tables.perform tokens (countAmbiguity t c) t.lookahead t.action

theorem step_eq :
    tables.step tokens c =
      tables.perform tokens (tables.counted tokens c) (lookahead tokens c.index)
        (tables.turn tokens c).action := by
  rw [step, turn_lookahead, counted]

theorem step_of_shift {t : Token T} {s : StateId}
    (action : (tables.turn tokens c).action = .shift s) (read : tokens[c.index]? = some t) :
    tables.step tokens c = .next ((tables.counted tokens c).shifted t s) := by
  rw [step_eq, action, perform, shift_eq, counted_index, read]

theorem step_of_reduce {p : P} {s top : StateId} {children trees : List (Tree T N)}
    {popped below : List StateId} (action : (tables.turn tokens c).action = .reduce p)
    (onTrees : c.trees = children ++ trees) (onStates : c.states = popped ++ top :: below)
    (children_length : children.length = tables.size p)
    (popped_length : popped.length = tables.size p)
    (goto : tables.goto top (tables.lhs p) = some s) :
    tables.step tokens c =
      .next ((tables.counted tokens c).reduced (tables.lhs p) children trees (top :: below) s) := by
  rw [step_eq, action, perform]
  exact reduce_eq_next (by simpa using onTrees) (by simpa using onStates) children_length
    popped_length goto

theorem step_of_accept {t : Tree T N} (action : (tables.turn tokens c).action = .accept)
    (onTrees : c.trees = [t]) :
    tables.step tokens c =
      if c.index = tokens.size then .accepted t
      else .failed (.badAccept 0 c.index tokens.size) := by
  rw [step_eq, action, perform, accept, counted_trees, onTrees]
  simp only [counted_index]

theorem step_of_error (action : (tables.turn tokens c).action = .error) :
    tables.step tokens c = .failed (unexpected tokens c) := by
  rw [step_eq, action, perform, unexpected, unexpected, counted_index]

/-- The ways in which a turn goes on: it consumes a token, or it replaces the right-hand side of a
production. Both say what the stacks were. -/
inductive Advance (tables : ParseTables T N P) (tokens : TokenList T) (c : Configuration T N) :
    Configuration T N → Prop where
  | shift {t : Token T} {s : StateId} (action : (tables.turn tokens c).action = .shift s)
      (read : tokens[c.index]? = some t) :
      Advance tables tokens c ((tables.counted tokens c).shifted t s)
  | reduce {p : P} {s top : StateId} {children trees : List (Tree T N)}
      {popped below : List StateId} (action : (tables.turn tokens c).action = .reduce p)
      (onTrees : c.trees = children ++ trees) (onStates : c.states = popped ++ top :: below)
      (children_length : children.length = tables.size p)
      (popped_length : popped.length = tables.size p)
      (goto : tables.goto top (tables.lhs p) = some s) :
      Advance tables tokens c
        ((tables.counted tokens c).reduced (tables.lhs p) children trees (top :: below) s)

theorem advance_of_step (h : tables.step tokens c = .next d) : Advance tables tokens c d := by
  rw [step_eq] at h
  generalize ha : (tables.turn tokens c).action = action at h
  cases action with
  | shift s =>
      rw [perform, shift_eq, counted_index] at h
      cases read : tokens[c.index]? with
      | none => rw [read] at h; cases h
      | some t =>
          rw [read] at h
          cases h
          exact .shift ha read
  | reduce p =>
      rw [perform, reduce, counted_trees, counted_states] at h
      split at h
      · next children trees popped top below first second =>
          obtain ⟨onTrees, children_length⟩ := splitFirst?_eq_some first
          obtain ⟨onStates, popped_length⟩ := splitFirst?_eq_some second
          split at h
          · cases h
          · next s goto =>
              cases h
              exact .reduce ha onTrees onStates children_length popped_length goto
      · cases h
  | accept =>
      rw [perform, accept] at h
      split at h
      · split at h <;> cases h
      · cases h
  | error => cases h
  | ambig a => cases h
  | goto s => cases h

/-- Only an ambiguity in the table is counted as one. -/
theorem counted_ambiguities_of_plain
    (plain : ∀ a, tables.action c.state (lookahead tokens c.index) ≠ .ambig a) :
    (tables.counted tokens c).ambiguities = c.ambiguities := by
  have none : (tables.turn tokens c).ambiguity? = none := by
    dsimp only [turn]
    split
    · next a found => exact absurd found (plain a)
    · rfl
  simp [counted, countAmbiguity_eq, none]

theorem counted_ambiguities_le : (tables.counted tokens c).ambiguities ≤ c.ambiguities + 1 := by
  rw [counted, countAmbiguity_eq]
  dsimp only
  split <;> omega

/-- A turn that goes on counts no other ambiguity than the one that it resolves. -/
theorem ambiguities_of_step (h : tables.step tokens c = .next d) :
    d.ambiguities = (tables.counted tokens c).ambiguities := by
  cases advance_of_step h <;> rfl

/-- No turn by itself is out of memory. -/
theorem step_ne_exhausted : tables.step tokens c ≠ .failed .exhausted := by
  rw [step_eq]
  cases (tables.turn tokens c).action with
  | shift s =>
      rw [perform, shift]
      split <;> nofun
  | reduce p =>
      rw [perform, reduce]
      split
      · split <;> nofun
      · nofun
  | accept =>
      rw [perform, accept]
      split
      · split <;> nofun
      · nofun
  | error =>
      rw [perform, unexpected]
      split <;> nofun
  | ambig | goto => nofun

/-- A run that is over with a turn hands over its counts, that turn's ambiguity among them. -/
theorem counters?_of_ends {run : ParseRun T N P} (final : run.final = tables.counted tokens c)
    (last : Ends (tables.step tokens c) run.result) :
    run.counters? = some (tables.counted tokens c).counters := by
  rw [← final]
  apply ParseRun.counters?_of_ne_exhausted
  intro exhausted
  rw [exhausted] at last
  have inMemory : tables.step tokens c ≠ .failed .exhausted := step_ne_exhausted
  generalize tables.step tokens c = turnResult at last inMemory
  cases last
  exact inMemory rfl

/-- Any number of turns that go on. -/
def Reaches (tables : ParseTables T N P) (tokens : TokenList T) :
    Configuration T N → Configuration T N → Prop :=
  Relation.ReflTransGen fun c d => tables.step tokens c = .next d

/-- The configurations that a run over a token list comes to. -/
def Reachable (tables : ParseTables T N P) (tokens : TokenList T) (c : Configuration T N) : Prop :=
  Reaches tables tokens tables.initial c

/-- No turn goes on from a configuration. -/
def Final (tables : ParseTables T N P) (tokens : TokenList T) (c : Configuration T N) : Prop :=
  ∀ d, tables.step tokens c ≠ .next d

theorem Reaches.refl (c : Configuration T N) : Reaches tables tokens c c :=
  Relation.ReflTransGen.refl

theorem Reaches.trans (h₁ : Reaches tables tokens c d) (h₂ : Reaches tables tokens d e) :
    Reaches tables tokens c e :=
  Relation.ReflTransGen.trans h₁ h₂

theorem Reaches.head (hs : tables.step tokens c = .next d) (h : Reaches tables tokens d e) :
    Reaches tables tokens c e :=
  Relation.ReflTransGen.head hs h

theorem Reaches.single (hs : tables.step tokens c = .next d) : Reaches tables tokens c d :=
  Relation.ReflTransGen.single hs

/-- What holds at the start and is kept by every turn holds of all configurations of a run. -/
theorem Reachable.induction {motive : Configuration T N → Prop} (start : motive tables.initial)
    (keep : ∀ c d, Reachable tables tokens c → motive c → tables.step tokens c = .next d → motive d)
    (h : Reachable tables tokens c) : motive c := by
  induction h with
  | refl => exact start
  | tail reached hs ih => exact keep _ _ reached ih hs

/-- A run has only one configuration from which no turn goes on. -/
theorem Reaches.final_unique (hd : Reaches tables tokens c d) (he : Reaches tables tokens c e)
    (endsD : Final tables tokens d) (endsE : Final tables tokens e) : d = e := by
  have stuck : ∀ {x y}, Final tables tokens x → Reaches tables tokens x y → x = y := by
    intro x y ends h
    cases h.cases_head with
    | inl eq => exact eq
    | inr next =>
        obtain ⟨z, hs, _⟩ := next
        exact absurd hs (ends z)
  have unique : Relator.RightUnique fun c d => tables.step tokens c = .next d := by
    intro x y z hy hz
    exact TurnResult.next.inj (hy.symm.trans hz)
  rcases Relation.ReflTransGen.total_of_right_unique unique hd he with h | h
  · exact stuck endsD h
  · exact (stuck endsE h).symm

/-- Each turn that goes on is counted once. -/
theorem turnsTaken_of_step (h : tables.step tokens c = .next d) :
    d.turnsTaken = c.turnsTaken + 1 := by
  cases advance_of_step h with
  | shift =>
      simp only [Configuration.turnsTaken, Configuration.shifted, counted_shifts,
        counted_reductions]
      omega
  | reduce =>
      simp only [Configuration.turnsTaken, Configuration.reduced, counted_shifts,
        counted_reductions]
      omega

variable {bound : Nat} {turns : List (Turn T P)}

theorem runFrom_of_next (h : tables.step tokens c = .next d) :
    tables.runFrom tokens (bound + 1) c turns =
      tables.runFrom tokens bound d (tables.turn tokens c :: turns) := by
  unfold step at h
  simp only [runFrom, h]

theorem runFrom_of_accepted {t : Tree T N} (h : tables.step tokens c = .accepted t) :
    tables.runFrom tokens (bound + 1) c turns =
      ⟨.ok t, tables.counted tokens c, tables.turn tokens c :: turns⟩ := by
  unfold step at h
  simp only [runFrom, h, counted]

theorem runFrom_of_failed {f : ParseFailure T N P} (h : tables.step tokens c = .failed f) :
    tables.runFrom tokens (bound + 1) c turns =
      ⟨.error f, tables.counted tokens c, tables.turn tokens c :: turns⟩ := by
  unfold step at h
  simp only [runFrom, h, counted]

/-- If the bound lies above all configurations that can be reached, a run ends in one of them from
which no turn goes on, with the result of that turn. -/
theorem runFrom_ends (bound : Nat) (turns : List (Turn T P))
    (below : ∀ d, Reaches tables tokens c d → d.turnsTaken < c.turnsTaken + bound) :
    ∃ d, Reaches tables tokens c d ∧ Final tables tokens d ∧
      (tables.runFrom tokens bound c turns).final = tables.counted tokens d ∧
      Ends (tables.step tokens d) (tables.runFrom tokens bound c turns).result := by
  induction bound generalizing c turns with
  | zero => exact absurd (below c (.refl c)) (Nat.lt_irrefl _)
  | succ bound ih =>
      cases hs : tables.step tokens c with
      | next d =>
          rw [runFrom_of_next hs]
          obtain ⟨e, reached, ends⟩ := ih (tables.turn tokens c :: turns) fun e he => by
            have := below e (he.head hs)
            have := turnsTaken_of_step hs
            omega
          exact ⟨e, reached.head hs, ends⟩
      | accepted t =>
          rw [runFrom_of_accepted hs]
          exact ⟨c, .refl c, by simp [Final, hs], rfl, hs ▸ .accepted t⟩
      | failed f =>
          rw [runFrom_of_failed hs]
          exact ⟨c, .refl c, by simp [Final, hs], rfl, hs ▸ .failed f⟩

/-- Under the same condition, a whole run ends in a reachable configuration, and hands over its
counts. -/
theorem parse_ends (below : ∀ d, Reachable tables tokens d → d.turnsTaken < turnBound tokens) :
    ∃ d, Reachable tables tokens d ∧ Final tables tokens d ∧
      (tables.parse tokens).counters? = some (tables.counted tokens d).counters ∧
      Ends (tables.step tokens d) (tables.parse tokens).result := by
  obtain ⟨d, reached, stops, final, ends⟩ := runFrom_ends (turnBound tokens) []
    fun d (hd : Reachable tables tokens d) => by
      simpa [Configuration.turnsTaken, initial] using below d hd
  exact ⟨d, reached, stops, counters?_of_ends final ends, ends⟩

end ParseTables

end TableParsing
