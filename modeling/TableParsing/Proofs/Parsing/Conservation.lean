import TableParsing.Proofs.Parsing.Execution

/-!
# What every turn of a parser conserves

Whatever the tables are, the trees on the stack hold the consumed tokens, each once and in order;
their nodes are the shifts and reductions made so far; and there is one state below the current one
for each tree. So no turn ever looks for a token or a state that is not there.
-/

namespace TableParsing

namespace ParseTables

variable {T N P : Type} {tables : ParseTables T N P} {tokens : TokenList T}
variable {c d : Configuration T N}

/-- The stacks and counters of a configuration agree with each other and with the token list. -/
structure Conserved (tokens : TokenList T) (c : Configuration T N) : Prop where
  index_eq_shifts : c.index = c.shifts
  index_le_size : c.index ≤ tokens.size
  frontier_eq : Tree.forestFrontier c.trees.reverse = tokens.toList.take c.index
  size_eq : Tree.forestSize c.trees = c.turnsTaken
  below_length : c.below.length = c.trees.length

namespace Conserved

theorem initial : Conserved tokens (tables.initial : Configuration T N) where
  index_eq_shifts := rfl
  index_le_size := Nat.zero_le _
  frontier_eq := rfl
  size_eq := rfl
  below_length := rfl

variable [Terminal T]

theorem counted (h : Conserved tokens c) : Conserved tokens (tables.counted tokens c) where
  index_eq_shifts := by simpa using h.index_eq_shifts
  index_le_size := by simpa using h.index_le_size
  frontier_eq := by simpa using h.frontier_eq
  size_eq := by simpa [Configuration.turnsTaken] using h.size_eq
  below_length := by simpa using h.below_length

omit [Terminal T] in
theorem shifted {t : Token T} {s : StateId} (h : Conserved tokens c)
    (read : tokens[c.index]? = some t) : Conserved tokens (c.shifted t s) where
  index_eq_shifts := congrArg (· + 1) h.index_eq_shifts
  index_le_size := by
    obtain ⟨bound, _⟩ := Array.getElem?_eq_some_iff.mp read
    exact bound
  frontier_eq := by
    have next : tokens.toList[c.index]? = some t := by simpa using read
    simp only [Configuration.shifted, List.reverse_cons, Tree.forestFrontier_append,
      h.frontier_eq, List.take_add_one, next]
    rfl
  size_eq := by
    have := h.size_eq
    simp only [Configuration.turnsTaken, Configuration.shifted, Tree.forestSize, Tree.size] at *
    omega
  below_length := congrArg (· + 1) h.below_length

omit [Terminal T] in
theorem reduced {n : N} {children trees : List (Tree T N)} {popped below : List StateId}
    {s top : StateId} (h : Conserved tokens c) (onTrees : c.trees = children ++ trees)
    (onStates : c.states = popped ++ top :: below) (same : popped.length = children.length) :
    Conserved tokens (c.reduced n children trees (top :: below) s) where
  index_eq_shifts := h.index_eq_shifts
  index_le_size := h.index_le_size
  frontier_eq := by
    have := h.frontier_eq
    rw [onTrees, List.reverse_append, Tree.forestFrontier_append] at this
    simpa [Configuration.reduced, Tree.forestFrontier_append, Tree.forestFrontier,
      Tree.frontier] using this
  size_eq := by
    have := h.size_eq
    rw [onTrees, Tree.forestSize_append] at this
    simp only [Configuration.turnsTaken, Configuration.reduced, Tree.forestSize, Tree.size,
      Tree.forestSize_reverse] at *
    omega
  below_length := by
    have lengths := congrArg List.length onStates
    have := h.below_length
    simp only [Configuration.states, onTrees, Configuration.reduced, List.length_append,
      List.length_cons] at *
    omega

theorem step (h : Conserved tokens c) (hs : tables.step tokens c = .next d) :
    Conserved tokens d := by
  cases advance_of_step hs with
  | shift _ read => exact h.counted.shifted (by simpa using read)
  | reduce _ onTrees onStates children_length popped_length _ =>
      exact h.counted.reduced (by simpa using onTrees) (by simpa using onStates)
        (popped_length.trans children_length.symm)

end Conserved

/-- All configurations of a run are consistent in this sense. -/
theorem Reachable.conserved [Terminal T] (h : Reachable tables tokens c) : Conserved tokens c :=
  h.induction .initial fun _ _ _ kept hs => kept.step hs

/-- No more can be shifted than there are tokens. So while all reductions but for a credit are paid
for by shifts, the bound on turns is far away. -/
theorem Reachable.turnsTaken_lt [Terminal T] {credit : Nat} (h : Reachable tables tokens c)
    (paid : c.reductions ≤ c.shifts + credit) (small : credit < 0x100000000) :
    c.turnsTaken < turnBound tokens := by
  have shifts := h.conserved.index_eq_shifts
  have inside := h.conserved.index_le_size
  rw [turnBound, Configuration.turnsTaken]
  omega

end ParseTables

end TableParsing
