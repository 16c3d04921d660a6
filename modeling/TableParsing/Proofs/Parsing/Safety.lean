import Mathlib.Algebra.GroupWithZero.Nat
import TableParsing.Proofs.Parsing.Failure

/-!
# A parser with any tables

Tables may give any size to a production, lead anywhere after a reduction, and accept or shift where
no grammar would. Still the stacks keep in step, and the trees are made of the tokens that have been
consumed. So only the size of a production can exceed what is there, and this is found out by
counting the trees; the states never run out.
-/

namespace TableParsing

namespace Tree

variable {T N : Type}

/-- The tokens of several trees, as their traversals tell them. -/
theorem forestFrontier_eq_flatMap (ts : List (Tree T N)) :
    forestFrontier ts = ts.flatMap fun t => Traversal.toList t.leafWalk := by
  induction ts with
  | nil => rfl
  | cons t ts ih => rw [forestFrontier, List.flatMap_cons, toList_leafWalk, ih]

/-- The size of several trees, as their traversals count it. -/
theorem forestSize_eq_sum (ts : List (Tree T N)) :
    forestSize ts = (ts.map nodeCount).sum := by
  induction ts with
  | nil => rfl
  | cons t ts ih => rw [forestSize, List.map_cons, List.sum_cons, nodeCount_eq_size, ih]

end Tree

namespace ParseTables

variable {T N P : Type} [Terminal T] {tables : ParseTables T N P} {tokens : TokenList T}
variable {c : Configuration T N} {p : P}

/-- The stacks of a configuration are in step, with the current state on top, and hold what the
counters say: the consumed tokens as leaves, in order, and a node for each shift and each
reduction. -/
structure InStep (tokens : TokenList T) (c : Configuration T N) : Prop where
  states_length : c.states.length = c.trees.length + 1
  current : c.states.head? = some c.state
  leaves : (c.trees.reverse.flatMap fun t => Traversal.toList t.leafWalk) =
    tokens.toList.take c.index
  consumed : c.index = c.shifts
  inside : c.shifts ≤ tokens.size
  nodes : (c.trees.map Tree.nodeCount).sum = c.shifts + c.reductions

omit [Terminal T] in
theorem Conserved.inStep (h : Conserved tokens c) : InStep tokens c where
  states_length := congrArg (· + 1) h.below_length
  current := rfl
  leaves := (Tree.forestFrontier_eq_flatMap _).symm.trans h.frontier_eq
  consumed := h.index_eq_shifts
  inside := h.index_eq_shifts ▸ h.index_le_size
  nodes := (Tree.forestSize_eq_sum _).symm.trans h.size_eq

/-- A reduction that finds a state under those that it takes off, and that goes on from there if the
tables say how. -/
def Uncovers (tables : ParseTables T N P) (tokens : TokenList T) (c : Configuration T N) (p : P) :
    Prop :=
  ∃ top, c.states[tables.size p]? = some top ∧
    tables.step tokens c =
      match tables.goto top (tables.lhs p) with
      | none => .failed (.noGoto (tables.lhs p) top)
      | some s =>
        .next ((tables.counted tokens c).reduced (tables.lhs p) (c.trees.take (tables.size p))
          (c.trees.drop (tables.size p)) (c.states.drop (tables.size p)) s)

/-- There are fewer trees than the next turn is to replace. -/
def Lacks (tables : ParseTables T N P) (tokens : TokenList T) (c : Configuration T N) (p : P) :
    Prop :=
  (tables.turn tokens c).action = .reduce p ∧ c.trees.length < tables.size p

/-- With the stacks in step, it is the trees that run out first. -/
theorem InStep.step_eq_underflow_iff (h : InStep tokens c) :
    tables.step tokens c = .failed (.underflow p) ↔ Lacks tables tokens c p := by
  have lengths := h.states_length
  rw [step_eq_failed_iff]
  constructor
  · intro stops
    cases stops with
    | underflow action short => exact ⟨action, by omega⟩
  · rintro ⟨action, short⟩
    exact .underflow action (.inl short)

theorem InStep.uncovers (h : InStep tokens c) (action : (tables.turn tokens c).action = .reduce p)
    (enough : tables.size p ≤ c.trees.length) : Uncovers tables tokens c p := by
  have inside : tables.size p < c.states.length := by
    rw [h.states_length]
    exact Nat.lt_succ_of_le enough
  have onStates := List.getElem?_eq_getElem inside
  exact ⟨_, onStates, step_of_enough action enough onStates⟩

theorem Halts.finishes {run : ParseRun T N P} (h : Halts tables tokens run) :
    Finishes tables tokens run := by
  cases h with
  | intro trace last => exact .ends trace last

/-- Wherever a run ends, it has consumed a token with each shift. -/
theorem Finishes.index_eq_shifts {run : ParseRun T N P} (h : Finishes tables tokens run) :
    run.final.index = run.final.shifts := by
  cases h with
  | ends trace => simpa using trace.reachable.conserved.index_eq_shifts
  | exhausted trace => exact trace.reachable.conserved.index_eq_shifts

/-- Whatever the tables are, the stacks are in step in all configurations of a run. A reduction
fails for want of trees exactly if its production is larger than their number, and otherwise finds
all it takes off and a state under it. A run that fails has counted as many tokens as shifts and
reports as many; out of memory, it leaves in place what an earlier run has reported. -/
theorem parse_inStep [Labelled N] [Labelled P] (tables : ParseTables T N P)
    (tokens : TokenList T) :
    (∀ c, Reachable tables tokens c → InStep tokens c ∧
      ∀ p, (tables.step tokens c = .failed (.underflow p) ↔ Lacks tables tokens c p) ∧
        ((tables.turn tokens c).action = .reduce p → tables.size p ≤ c.trees.length →
          Uncovers tables tokens c p)) ∧
    (∀ p, (tables.parse tokens).result = .error (.underflow p) →
      ∃ c, Reachable tables tokens c ∧ Lacks tables tokens c p) ∧
    (∀ c p, Reachable tables tokens c → Lacks tables tokens c p →
      ∃ run, ComesTo tables tokens run ∧ run.result = .error (.underflow p)) ∧
    (∀ run, run = tables.parse tokens ∨ ComesTo tables tokens run →
      ∀ f, run.result = .error f →
        run.final.counters.tokens = run.final.counters.shifts ∧
        ∀ d : Diagnostics, (f = .exhausted → d.parser.tokens = d.parser.shifts) →
          (run.record d).parser.tokens = (run.record d).parser.shifts) := by
  refine ⟨?_, ?_, ?_, ?_⟩
  · intro c reached
    have inStep := reached.conserved.inStep
    exact ⟨inStep, fun p => ⟨inStep.step_eq_underflow_iff, inStep.uncovers⟩⟩
  · intro p failed
    obtain ⟨c, reached, stops⟩ := exists_stops_of_parse failed nofun
    exact ⟨c, reached, reached.conserved.inStep.step_eq_underflow_iff.mp stops.step_eq_failed⟩
  · intro c p reached lacks
    have fails := reached.conserved.inStep.step_eq_underflow_iff.mpr lacks
    have last : Ends (tables.step tokens c) (.error (.underflow p)) := fails ▸ .failed _
    obtain ⟨run, comes, result, _⟩ := reached.exists_comesTo last
    exact ⟨run, comes, result⟩
  · intro run is f failed
    have finishes : Finishes tables tokens run := by
      rcases is with rfl | comes
      · exact parse_finishes tables tokens
      · exact comes.halts.finishes
    have same := finishes.index_eq_shifts
    refine ⟨same, fun d before => ?_⟩
    by_cases exhausted : f = .exhausted
    · subst exhausted
      rw [ParseRun.parser_of_exhausted failed]
      exact before rfl
    · have inMemory : run.result ≠ .error .exhausted := by
        rw [failed]
        exact fun same => exhausted (Except.error.inj same)
      rw [ParseRun.parser_of_record (ParseRun.counters?_of_ne_exhausted inMemory)]
      exact same

/-- Tables of lists that want a list in front of the first item. -/
def headless : ParseTables ItemList.Lexeme ItemList.Phrase ItemList.Production :=
  { ItemList.parseTables with start := ⟨1⟩ }

def afterFirst : Configuration ItemList.Lexeme ItemList.Phrase :=
  { state := ⟨2⟩, below := [⟨1⟩], trees := [.leaf ⟨.item, ⟨0, 1⟩⟩], index := 1, shifts := 1 }

/-- One tree is there where two are to be replaced. -/
theorem parse_inStep_headless :
    Reachable headless itemAndPair afterFirst ∧ InStep itemAndPair afterFirst ∧
      Lacks headless itemAndPair afterFirst .addItem ∧
      headless.step itemAndPair afterFirst = .failed (.underflow .addItem) ∧
      (∃ run, ComesTo headless itemAndPair run ∧ run.result = .error (.underflow .addItem)) ∧
      (headless.parse itemAndPair).result = .error (.underflow .addItem) ∧
      (((headless.parse itemAndPair).record {}).parser.tokens =
        ((headless.parse itemAndPair).record {}).parser.shifts) := by
  obtain ⟨steps, -, comes, counts⟩ := parse_inStep headless itemAndPair
  have reached : Reachable headless itemAndPair afterFirst := .single rfl
  have lacks : Lacks headless itemAndPair afterFirst .addItem := ⟨rfl, by decide⟩
  obtain ⟨inStep, reduces⟩ := steps afterFirst reached
  have failed : (headless.parse itemAndPair).result = .error (.underflow .addItem) := rfl
  exact ⟨reached, inStep, lacks, (reduces .addItem).1.mpr lacks, comes _ _ reached lacks, failed,
    (counts _ (.inl rfl) _ failed).2 {} nofun⟩

end ParseTables

end TableParsing
