import TableParsing.Proofs.Elementwise
import TableParsing.Proofs.Parsing.Execution

/-!
# Runs over corresponding tokens

Of a token a parser looks at the terminal only. Over two token lists whose tokens correspond one by
one and have the same terminals, runs go in lockstep, whatever the tables are: they take the same
turns from the same states, and their trees have the same shape with corresponding tokens at the
leaves.

What it is for tokens to correspond is left open. It may be that they have the same text, in sources
that differ elsewhere.
-/

namespace TableParsing

variable {T N P : Type}

/-- Two trees of the same shape with the same nonterminals, whose tokens correspond. -/
inductive Tree.Alike (R : Token T → Token T → Prop) : Tree T N → Tree T N → Prop where
  | leaf {a b : Token T} (tokens : R a b) : Alike R (.leaf a) (.leaf b)
  | node {n : N} {ts us : List (Tree T N)} (children : List.Forall₂ (Alike R) ts us) :
      Alike R (.node n ts) (.node n us)

/-- Two configurations with the same states and counters, whose trees correspond. -/
structure Configuration.Alike (R : Token T → Token T → Prop) (c c' : Configuration T N) : Prop where
  state : c.state = c'.state
  below : c.below = c'.below
  trees : List.Forall₂ (Tree.Alike R) c.trees c'.trees
  index : c.index = c'.index
  shifts : c.shifts = c'.shifts
  reductions : c.reductions = c'.reductions
  ambiguities : c.ambiguities = c'.ambiguities

theorem Configuration.Alike.states {R : Token T → Token T → Prop} {c c' : Configuration T N}
    (h : c.Alike R c') : c.states = c'.states := by
  rw [Configuration.states, h.state, h.below]
  rfl

/-- Two turns that come to corresponding configurations or trees, or that both fail. -/
inductive TurnResult.Alike (R : Token T → Token T → Prop) :
    TurnResult T N P → TurnResult T N P → Prop where
  | next {c c' : Configuration T N} (alike : c.Alike R c') : Alike R (.next c) (.next c')
  | accepted {t t' : Tree T N} (alike : t.Alike R t') : Alike R (.accepted t) (.accepted t')
  | failed {f f' : ParseFailure T N P} : Alike R (.failed f) (.failed f')

/-- Two runs that take the same turns up to corresponding configurations, and that return
corresponding trees or both fail. -/
structure ParseRun.Alike (R : Token T → Token T → Prop) (run run' : ParseRun T N P) : Prop where
  turns : run.turns = run'.turns
  final : run.final.Alike R run'.final
  succeeds : ∀ t, run.result = .ok t → ∃ t', run'.result = .ok t' ∧ t.Alike R t'
  fails : ∀ f, run.result = .error f → ∃ f', run'.result = .error f'

namespace ParseTables

variable {tables : ParseTables T N P} {R : Token T → Token T → Prop} {tokens tokens' : TokenList T}
variable {c c' : Configuration T N}

theorem splitFirst?_rel {α : Type} {S : α → α → Prop} (n : Nat) {xs ys : List α}
    (h : List.Forall₂ S xs ys) :
    Option.Rel (fun v w => List.Forall₂ S v.1 w.1 ∧ List.Forall₂ S v.2 w.2)
      (splitFirst? n xs) (splitFirst? n ys) := by
  rw [splitFirst?_eq, splitFirst?_eq, h.length_eq]
  split
  · exact .some ⟨List.forall₂_take n h, List.forall₂_drop n h⟩
  · exact .none

theorem reduce_alike (alike : c.Alike R c') (p : P) :
    (tables.reduce c p).Alike R (tables.reduce c' p) := by
  have taken := splitFirst?_rel (tables.size p) alike.trees
  rw [reduce, reduce, ← alike.states]
  generalize splitFirst? _ c.trees = first, splitFirst? _ c'.trees = first' at taken
  cases taken with
  | none => exact .failed
  | some related =>
      obtain ⟨children, trees⟩ := related
      rcases splitFirst? (tables.size p) c.states with _ | ⟨popped, _ | ⟨top, below⟩⟩
      · exact .failed
      · exact .failed
      · cases goto : tables.goto top (tables.lhs p) with
        | none =>
            simp only [goto]
            exact .failed
        | some target =>
            simp only [goto]
            apply TurnResult.Alike.next
            exact { alike with
              state := rfl
              below := rfl
              trees := .cons (.node (List.rel_reverse children)) trees
              reductions := congrArg (· + 1) alike.reductions }

/-- Corresponding tokens are next in both lists, or both lists are at their end. -/
structure Corresponds (R : Token T → Token T → Prop) (tokens tokens' : TokenList T) (i : Nat) :
    Prop where
  read : Option.Rel R tokens[i]? tokens'[i]?
  whole : i = tokens.size ↔ i = tokens'.size

theorem shift_alike (alike : c.Alike R c') (here : Corresponds R tokens tokens' c.index)
    (next : T) (target : StateId) :
    (shift tokens c next target : TurnResult T N P).Alike R (shift tokens' c' next target) := by
  have read := here.read
  rw [shift_eq, shift_eq, ← alike.index]
  generalize tokens[c.index]? = found, tokens'[c.index]? = found' at read
  cases read with
  | none => exact .failed
  | some related =>
      apply TurnResult.Alike.next
      exact { alike with
        state := rfl
        below := alike.states
        trees := .cons (.leaf related) alike.trees
        index := congrArg (· + 1) alike.index
        shifts := congrArg (· + 1) alike.shifts }

theorem accept_alike (alike : c.Alike R c') (here : Corresponds R tokens tokens' c.index) :
    (accept tokens c : TurnResult T N P).Alike R (accept tokens' c') := by
  have trees := alike.trees
  rw [accept, accept, ← alike.index]
  generalize c.trees = ts, c'.trees = us at trees
  cases trees with
  | nil => exact .failed
  | cons related rest =>
      cases rest with
      | nil =>
          simp only [here.whole]
          split
          · exact .accepted related
          · exact .failed
      | cons => exact .failed

theorem perform_alike (alike : c.Alike R c') (here : Corresponds R tokens tokens' c.index)
    (next : T) (action : ParseAction P) :
    (tables.perform tokens c next action).Alike R (tables.perform tokens' c' next action) := by
  cases action with
  | shift target => exact shift_alike alike here next target
  | reduce p => exact reduce_alike alike p
  | accept => exact accept_alike alike here
  | error | ambig | goto => exact .failed

variable [Terminal T]

theorem lookahead_eq (terminals : ∀ a b, R a b → a.terminal = b.terminal) {i : Nat}
    (here : Corresponds R tokens tokens' i) : lookahead tokens i = lookahead tokens' i := by
  have read := here.read
  unfold lookahead
  generalize tokens[i]? = found, tokens'[i]? = found' at read
  cases read with
  | none => rfl
  | some related => exact terminals _ _ related

/-- Corresponding configurations take the same turn. -/
theorem turn_eq (tables : ParseTables T N P) (alike : c.Alike R c')
    (same : lookahead tokens c.index = lookahead tokens' c.index) :
    tables.turn tokens c = tables.turn tokens' c' := by
  rw [turn, turn, ← alike.index, ← alike.state, ← alike.states, same]

theorem counted_alike (alike : c.Alike R c')
    (same : tables.turn tokens c = tables.turn tokens' c') :
    (tables.counted tokens c).Alike R (tables.counted tokens' c') := by
  rw [counted, counted, countAmbiguity_eq, countAmbiguity_eq, same]
  exact { alike with ambiguities := congrArg (· + _) alike.ambiguities }

/-- A turn keeps configurations alike. -/
theorem step_alike (tables : ParseTables T N P) (alike : c.Alike R c')
    (terminals : ∀ a b, R a b → a.terminal = b.terminal)
    (here : Corresponds R tokens tokens' c.index) :
    (tables.step tokens c).Alike R (tables.step tokens' c') := by
  have same := lookahead_eq terminals here
  have turn := turn_eq tables alike same
  rw [step_eq, step_eq, ← alike.index, same, turn]
  exact perform_alike (counted_alike alike turn) (by simpa using here) _ _

omit [Terminal T] in
theorem corresponds_of_forall₂ (h : List.Forall₂ R tokens.toList tokens'.toList) (i : Nat) :
    Corresponds R tokens tokens' i := by
  have size : tokens.size = tokens'.size := by simpa using h.length_eq
  constructor
  · rw [← Array.getElem?_toList, ← Array.getElem?_toList]
    exact getElem?_rel h i
  · rw [size]

/-- Runs over corresponding tokens stay alike to their ends. -/
theorem runFrom_alike (terminals : ∀ a b, R a b → a.terminal = b.terminal)
    (tokens_alike : List.Forall₂ R tokens.toList tokens'.toList) (bound : Nat)
    (turns : List (Turn T P)) (alike : c.Alike R c') :
    (tables.runFrom tokens bound c turns).Alike R (tables.runFrom tokens' bound c' turns) := by
  induction bound generalizing c c' turns with
  | zero => exact ⟨rfl, alike, nofun, fun _ _ => ⟨_, rfl⟩⟩
  | succ bound ih =>
      have here := corresponds_of_forall₂ tokens_alike c.index
      have turn := turn_eq tables alike (lookahead_eq terminals here)
      have stepped := step_alike tables alike terminals here
      generalize hs : tables.step tokens c = result, hs' : tables.step tokens' c' = result'
        at stepped
      cases stepped with
      | next alike' =>
          rw [runFrom_of_next hs, runFrom_of_next hs', turn]
          exact ih _ alike'
      | accepted trees =>
          rw [runFrom_of_accepted hs, runFrom_of_accepted hs', turn]
          refine ⟨rfl, counted_alike alike turn, ?_, nofun⟩
          rintro t ⟨rfl⟩
          exact ⟨_, rfl, trees⟩
      | failed =>
          rw [runFrom_of_failed hs, runFrom_of_failed hs', turn]
          exact ⟨rfl, counted_alike alike turn, nofun, fun _ _ => ⟨_, rfl⟩⟩

/-- Over corresponding tokens a parser does the same and returns corresponding trees. -/
theorem parse_alike (tables : ParseTables T N P)
    (terminals : ∀ a b, R a b → a.terminal = b.terminal)
    (tokens_alike : List.Forall₂ R tokens.toList tokens'.toList) :
    (tables.parse tokens).Alike R (tables.parse tokens') := by
  have size : tokens.size = tokens'.size := by simpa using tokens_alike.length_eq
  rw [parse, parse, turnBound, turnBound, size]
  exact runFrom_alike terminals tokens_alike _ _ ⟨rfl, rfl, .nil, rfl, rfl, rfl, rfl⟩

end ParseTables

end TableParsing
