import Mathlib.Data.List.Forall2
import TableParsing.ItemList.Parsing
import TableParsing.Proofs.Parsing.Conservation
import TableParsing.Proofs.Tree.Traversal

/-!
# What a parser did, read off its tree

`Trace` lists the configurations that a run has gone through. Every turn that goes on adds one node
to the trees on the stack, and adds it behind all others in postorder: a shift the leaf of its
token, a reduction the node over the trees that it takes off. So the nodes on the stack in postorder
are the turns so far, whatever the tables are, and the tree that is returned tells all turns but the
last.
-/

namespace TableParsing

namespace ParseTables

variable {T N P : Type} [Terminal T] {tables : ParseTables T N P} {tokens : TokenList T}
variable {past : List (Configuration T N)} {c d : Configuration T N}

/-- The configurations of a run before a configuration, the latest first. One turn leads from each
to the next. -/
inductive Trace (tables : ParseTables T N P) (tokens : TokenList T) :
    List (Configuration T N) → Configuration T N → Prop where
  | start : Trace tables tokens [] tables.initial
  | next {past : List (Configuration T N)} {c d : Configuration T N}
      (before : Trace tables tokens past c) (goes : tables.step tokens c = .next d) :
      Trace tables tokens (c :: past) d

theorem Trace.reachable (h : Trace tables tokens past c) : Reachable tables tokens c := by
  induction h with
  | start => exact .refl _
  | next _ goes ih => exact ih.trans (.single goes)

/-- How a run ends: with a turn that does not go on, or with the bound on turns. -/
inductive Finishes (tables : ParseTables T N P) (tokens : TokenList T) :
    ParseRun T N P → Prop where
  | ends {past : List (Configuration T N)} {c : Configuration T N}
      {result : Except (ParseFailure T N P) (Tree T N)} (trace : Trace tables tokens past c)
      (last : Ends (tables.step tokens c) result) :
      Finishes tables tokens ⟨result, tables.counted tokens c,
        tables.turn tokens c :: past.map (tables.turn tokens)⟩
  | exhausted {past : List (Configuration T N)} {c : Configuration T N}
      (trace : Trace tables tokens past c) :
      Finishes tables tokens ⟨.error .exhausted, c, past.map (tables.turn tokens)⟩

theorem Trace.runFrom_finishes (h : Trace tables tokens past c) (bound : Nat) :
    Finishes tables tokens
      (tables.runFrom tokens bound c (past.map (tables.turn tokens))) := by
  induction bound generalizing past c with
  | zero => exact .exhausted h
  | succ bound ih =>
      cases hs : tables.step tokens c with
      | next d =>
          rw [runFrom_of_next hs]
          exact ih (h.next hs)
      | accepted t =>
          rw [runFrom_of_accepted hs]
          exact .ends h (hs ▸ .accepted t)
      | failed f =>
          rw [runFrom_of_failed hs]
          exact .ends h (hs ▸ .failed f)

/-- A run goes through configurations from the start to the one in which its last turn is taken. -/
theorem parse_finishes (tables : ParseTables T N P) (tokens : TokenList T) :
    Finishes tables tokens (tables.parse tokens) :=
  Trace.start.runFrom_finishes (turnBound tokens)

/-- A turn accepts only where the table says so, with one tree on the stack and all tokens
consumed. -/
theorem of_step_eq_accepted {t : Tree T N} (h : tables.step tokens c = .accepted t) :
    (tables.turn tokens c).action = .accept ∧ c.trees = [t] ∧ c.index = tokens.size := by
  rw [step_eq] at h
  generalize ha : (tables.turn tokens c).action = action at h
  cases action with
  | accept =>
      rw [perform, accept, counted_trees, counted_index] at h
      split at h
      · next tree onTrees =>
          split at h
          · next whole =>
              obtain rfl := TurnResult.accepted.inj h
              exact ⟨rfl, onTrees, whole⟩
          · cases h
      · cases h
  | shift s =>
      rw [perform, shift_eq] at h
      split at h <;> cases h
  | reduce p =>
      rw [perform, reduce] at h
      split at h
      · split at h <;> cases h
      · cases h
  | error | ambig | goto => cases h

/-- The node that the turn of a configuration adds to the trees: the leaf of the token that it
shifts, or a node for the production that it reduces. -/
inductive Adds (tables : ParseTables T N P) (tokens : TokenList T) (c : Configuration T N) :
    Tree T N → Prop where
  | leaf {s : StateId} {t : Token T} (action : (tables.turn tokens c).action = .shift s)
      (read : tokens[c.index]? = some t) : Adds tables tokens c (.leaf t)
  | node {p : P} {children : List (Tree T N)} (action : (tables.turn tokens c).action = .reduce p)
      (length : children.length = tables.size p) :
      Adds tables tokens c (.node (tables.lhs p) children)

/-- A turn adds one node behind all others. -/
theorem exists_adds_of_step (h : tables.step tokens c = .next d) :
    ∃ u, Adds tables tokens c u ∧
      Tree.forestPostorder d.trees.reverse = Tree.forestPostorder c.trees.reverse ++ [u] := by
  cases advance_of_step h with
  | @shift t s action read =>
      refine ⟨_, .leaf action read, ?_⟩
      simp only [Configuration.shifted, counted_trees, List.reverse_cons,
        Tree.forestPostorder_append]
      rfl
  | @reduce p s top children trees popped below action onTrees onStates children_length =>
      refine ⟨_, .node action ((List.length_reverse).trans children_length), ?_⟩
      simp only [Configuration.reduced, onTrees, List.reverse_cons, List.reverse_append,
        Tree.forestPostorder_append, List.append_assoc]
      simp only [Tree.forestPostorder, Tree.postorder, List.append_nil]

/-- The nodes on the stack in postorder are what the turns so far have added. -/
theorem Trace.postorder (h : Trace tables tokens past c) :
    List.Forall₂ (Adds tables tokens) past.reverse (Tree.forestPostorder c.trees.reverse) := by
  induction h with
  | start => exact .nil
  | @next past c d _ goes ih =>
      obtain ⟨u, adds, grown⟩ := exists_adds_of_step goes
      rw [grown, List.reverse_cons]
      exact List.rel_append ih (.cons adds .nil)

/-- Every inner node that is added is one for a production. -/
theorem exists_production_of_adds {cs : List (Configuration T N)} {nodes : List (Tree T N)}
    (h : List.Forall₂ (Adds tables tokens) cs nodes) {n : N} {children : List (Tree T N)}
    (mem : .node n children ∈ nodes) :
    ∃ p, n = tables.lhs p ∧ children.length = tables.size p := by
  induction h with
  | nil => cases mem
  | cons adds _ ih =>
      rcases List.mem_cons.mp mem with rfl | later
      · cases adds with
        | node _ length => exact ⟨_, rfl, length⟩
      · exact ih later

/-- A run that returns a tree ends with a turn that accepts it. -/
theorem exists_trace_of_parse {t : Tree T N} (h : (tables.parse tokens).result = .ok t) :
    ∃ past c, Trace tables tokens past c ∧ tables.step tokens c = .accepted t ∧
      (tables.parse tokens).turns = tables.turn tokens c :: past.map (tables.turn tokens) ∧
      (tables.parse tokens).counters? = some (tables.counted tokens c).counters := by
  have finishes := parse_finishes tables tokens
  generalize tables.parse tokens = run at h finishes
  cases finishes with
  | exhausted => cases h
  | @ends past c result trace last =>
      obtain rfl : result = .ok t := h
      refine ⟨past, c, trace, ?_, rfl, rfl⟩
      generalize tables.step tokens c = turnResult at last
      cases last
      rfl

/-- The leaves of a tree that is returned are the tokens. -/
theorem leaves_of_parse {t : Tree T N} (h : (tables.parse tokens).result = .ok t) :
    Traversal.toList t.leafWalk = tokens.toList := by
  obtain ⟨past, c, trace, hs, _⟩ := exists_trace_of_parse h
  obtain ⟨_, onTrees, whole⟩ := of_step_eq_accepted hs
  have frontier := trace.reachable.conserved.frontier_eq
  rw [onTrees, whole, List.take_of_length_le (by simp)] at frontier
  simpa [Tree.forestFrontier, Tree.toList_leafWalk] using frontier

variable [Labelled N] [Labelled P]

/-- A tree that tells what a run did: its nodes in postorder are what the turns have added, one
after the other up to the last turn, which accepts. Its leaves are the tokens, its inner nodes are
made for productions, and it has a node for each shift and each reduction that is counted. -/
structure Recounts (tables : ParseTables T N P) (tokens : TokenList T) (t : Tree T N) : Prop where
  history : ∃ past c, Trace tables tokens past c ∧
    (tables.parse tokens).turns = tables.turn tokens c :: past.map (tables.turn tokens) ∧
    (tables.turn tokens c).action = .accept ∧
    List.Forall₂ (Adds tables tokens) past.reverse (Traversal.toList t.postorderWalk)
  leaves : Traversal.toList t.leafWalk = tokens.toList
  inner : ∀ n children, .node n children ∈ Traversal.toList t.postorderWalk →
    ∃ p, n = tables.lhs p ∧ children.length = tables.size p
  nodes (d : Diagnostics) : t.nodeCount = ((tables.parse tokens).record d).parser.shifts +
    ((tables.parse tokens).record d).parser.reductions
  consumed (d : Diagnostics) : ((tables.parse tokens).record d).parser.tokens = tokens.size
  shifts (d : Diagnostics) : ((tables.parse tokens).record d).parser.shifts = tokens.size

/-- Whatever the tables are, a tree that is returned recounts the run. -/
theorem parse_recounts {t : Tree T N} (h : (tables.parse tokens).result = .ok t) :
    Recounts tables tokens t := by
  obtain ⟨past, c, trace, hs, turns, counts⟩ := exists_trace_of_parse h
  obtain ⟨accepts, onTrees, whole⟩ := of_step_eq_accepted hs
  have kept := trace.reachable.conserved
  have postorder : List.Forall₂ (Adds tables tokens) past.reverse
      (Traversal.toList t.postorderWalk) := by
    have added := trace.postorder
    rw [onTrees] at added
    simpa [Tree.forestPostorder, Tree.toList_postorderWalk] using added
  refine ⟨⟨past, c, trace, turns, accepts, postorder⟩, leaves_of_parse h, ?_, ?_, ?_, ?_⟩
  · intro n children mem
    exact exists_production_of_adds postorder mem
  · intro d
    have size := kept.size_eq
    rw [onTrees] at size
    rw [ParseRun.parser_of_record counts, Tree.nodeCount_eq_size]
    simpa [Tree.forestSize, Configuration.turnsTaken, Configuration.counters] using size
  · intro d
    rw [ParseRun.parser_of_record counts]
    simpa [Configuration.counters] using whole
  · intro d
    rw [ParseRun.parser_of_record counts]
    simpa [Configuration.counters, kept.index_eq_shifts] using whole

def itemAndPair : TokenList ItemList.Lexeme := #[⟨.item, ⟨0, 1⟩⟩, ⟨.pair, ⟨2, 4⟩⟩]

/-- Its tree, with the empty list at the left end. -/
def itemAndPairTree : Tree ItemList.Lexeme ItemList.Phrase :=
  .node .list [.node .list [.node .list [], .leaf ⟨.item, ⟨0, 1⟩⟩], .leaf ⟨.pair, ⟨2, 4⟩⟩]

/-- A node without children is told like any other. -/
theorem recounts_itemAndPair :
    (ItemList.parseTables.parse itemAndPair).result = .ok itemAndPairTree ∧
      Recounts ItemList.parseTables itemAndPair itemAndPairTree :=
  ⟨rfl, parse_recounts rfl⟩

end ParseTables

end TableParsing
