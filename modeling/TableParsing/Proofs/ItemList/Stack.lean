import Mathlib.Data.List.Basic
import Mathlib.Data.List.Induction
import TableParsing.ItemList.Parsing
import TableParsing.Proofs.Parsing.Conservation

/-!
# The stack of a parser of lists

A parser of lists has at most two trees on its stack: the list so far, which is never missing but at
the very start, and the item or pair behind it.
-/

namespace TableParsing

namespace ItemList

open ParseTables

/-- The tree of a list of items and pairs: the empty list with one of them after the other behind
it. -/
def listTree (elements : List (Token Lexeme)) : Tree Lexeme Phrase :=
  elements.foldl (fun t element => .node .list [t, .leaf element]) (.node .list [])

@[simp] theorem listTree_append (elements : List (Token Lexeme)) (t : Token Lexeme) :
    listTree (elements ++ [t]) = .node .list [listTree elements, .leaf t] := by
  rw [listTree, List.foldl_append]
  rfl

theorem frontier_listTree (elements : List (Token Lexeme)) :
    (listTree elements).frontier = elements := by
  induction elements using List.reverseRecOn with
  | nil => rfl
  | append_singleton elements t ih =>
      rw [listTree_append, Tree.frontier, Tree.forestFrontier, ih]
      rfl

theorem size_listTree (elements : List (Token Lexeme)) :
    (listTree elements).size = 2 * elements.length + 1 := by
  induction elements using List.reverseRecOn with
  | nil => rfl
  | append_singleton elements t ih =>
      rw [listTree_append, List.length_append, Tree.size, Tree.forestSize, ih]
      simp only [Tree.forestSize, Tree.size, List.length_singleton]
      omega

/-- What stands on the stacks of a parser of lists. -/
inductive Shape : List StateId → List (Tree Lexeme Phrase) → Prop where
  | nothing : Shape [⟨0⟩] []
  | list (elements : List (Token Lexeme)) : Shape [⟨1⟩, ⟨0⟩] [listTree elements]
  | item (elements : List (Token Lexeme)) {t : Token Lexeme} (isItem : t.terminal = .item) :
      Shape [⟨2⟩, ⟨1⟩, ⟨0⟩] [.leaf t, listTree elements]
  | pair (elements : List (Token Lexeme)) {t : Token Lexeme} (isPair : t.terminal = .pair) :
      Shape [⟨3⟩, ⟨1⟩, ⟨0⟩] [.leaf t, listTree elements]

variable {tokens : TokenList Lexeme} {c d : Configuration Lexeme Phrase}

/-- There are two nodes for each token, and one for the empty list. -/
theorem Shape.size_le {states : List StateId} {trees : List (Tree Lexeme Phrase)}
    (h : Shape states trees) :
    Tree.forestSize trees ≤ 2 * (Tree.forestFrontier trees.reverse).length + 1 := by
  cases h with
  | nothing => exact Nat.zero_le _
  | list elements =>
      simp [Tree.forestSize, Tree.forestFrontier, size_listTree, frontier_listTree]
  | item elements | pair elements =>
      simp only [Tree.forestSize, Tree.size, size_listTree, List.reverse_cons, List.reverse_nil,
        List.nil_append, List.cons_append, Tree.forestFrontier, Tree.frontier, frontier_listTree,
        List.length_append, List.length_cons, List.length_nil]
      omega

/-- What the tables say of a state in front of a terminal. They leave no choice. -/
inductive Acts : StateId → Lexeme → Action → Prop where
  | shiftItem : Acts ⟨1⟩ .item (.shift ⟨2⟩)
  | shiftPair : Acts ⟨1⟩ .pair (.shift ⟨3⟩)
  | emptyList {t : Lexeme} : Acts ⟨0⟩ t (.reduce .emptyList)
  | addItem {t : Lexeme} : Acts ⟨2⟩ t (.reduce .addItem)
  | addPair {t : Lexeme} : Acts ⟨3⟩ t (.reduce .addPair)
  | accept : Acts ⟨1⟩ .finish .accept
  | error {s : StateId} {t : Lexeme} : Acts s t .error

theorem acts_endProduction {s : StateId} {p : Production} (t : Lexeme)
    (acts : Acts s t (.reduce p)) : Acts s t (endProduction p t) := by
  cases t with
  | stop => exact .error
  | item | pair | finish => exact acts

theorem acts_action (s : StateId) (t : Lexeme) : Acts s t (action s t) := by
  obtain ⟨index⟩ := s
  match index with
  | 0 => exact acts_endProduction t .emptyList
  | 1 =>
      cases t with
      | item => exact .shiftItem
      | pair => exact .shiftPair
      | stop => exact .error
      | finish => exact .accept
  | 2 => exact acts_endProduction t .addItem
  | 3 => exact acts_endProduction t .addPair
  | _ + 4 => exact .error

theorem action_ne_ambig (s : StateId) (t : Lexeme) (a : AmbigId) : action s t ≠ .ambig a := by
  intro choice
  have acts := acts_action s t
  rw [choice] at acts
  cases acts

/-- A turn performs the entry of the tables. -/
theorem turn_action (tokens : TokenList Lexeme) (c : Configuration Lexeme Phrase) :
    (parseTables.turn tokens c).action = action c.state (lookahead tokens c.index) :=
  turn_action_of_plain rfl (action_ne_ambig c.state _)

theorem acts_turn (tokens : TokenList Lexeme) (c : Configuration Lexeme Phrase) :
    Acts c.state (lookahead tokens c.index) (parseTables.turn tokens c).action := by
  rw [turn_action]
  exact acts_action c.state _

section Turns

variable {q s top : StateId} {below popped under : List StateId} {p : Production} {a : Lexeme}
variable {children trees rest : List (Tree Lexeme Phrase)}

theorem Shape.shift {t : Token Lexeme} (h : Shape (q :: below) trees)
    (acts : Acts q t.terminal (.shift s)) : Shape (s :: q :: below) (.leaf t :: trees) := by
  generalize terminal : t.terminal = a at acts
  cases h with
  | nothing | item | pair => cases acts
  | list elements =>
      cases acts with
      | shiftItem => exact .item elements terminal
      | shiftPair => exact .pair elements terminal

/-- With an item or a pair behind it, a list is one longer. -/
theorem Shape.grow {elements : List (Token Lexeme)} {t : Token Lexeme}
    (onTrees : [.leaf t, listTree elements] = children ++ rest)
    (onStates : [q, ⟨1⟩, ⟨0⟩] = popped ++ top :: under) (children_length : children.length = 2)
    (popped_length : popped.length = 2) (goto : goto top .list = some s) :
    Shape (s :: top :: under) (.node .list children.reverse :: rest) := by
  obtain ⟨_, _, rfl⟩ := List.length_eq_two.mp children_length
  obtain ⟨_, _, rfl⟩ := List.length_eq_two.mp popped_length
  cases onTrees
  cases onStates
  cases goto
  exact listTree_append elements t ▸ .list (elements ++ [t])

theorem Shape.reduce (h : Shape (q :: below) trees) (acts : Acts q a (.reduce p))
    (onTrees : trees = children ++ rest) (onStates : q :: below = popped ++ top :: under)
    (children_length : children.length = p.size) (popped_length : popped.length = p.size)
    (goto : goto top p.lhs = some s) :
    Shape (s :: top :: under) (.node p.lhs children.reverse :: rest) := by
  cases h with
  | nothing =>
      cases acts with
      | emptyList =>
          obtain rfl := List.length_eq_zero_iff.mp children_length
          obtain rfl := List.length_eq_zero_iff.mp popped_length
          cases onTrees
          cases onStates
          cases goto
          exact .list []
  | list => cases acts
  | item =>
      cases acts with
      | addItem => exact .grow onTrees onStates children_length popped_length goto
  | pair =>
      cases acts with
      | addPair => exact .grow onTrees onStates children_length popped_length goto

end Turns

/-- A turn that goes on keeps the shape. -/
theorem Shape.step (h : Shape c.states c.trees) (goes : parseTables.step tokens c = .next d) :
    Shape d.states d.trees := by
  have acts := acts_turn tokens c
  cases advance_of_step goes with
  | @shift t s found read =>
      have next : lookahead tokens c.index = t.terminal := by rw [lookahead, read]
      rw [found, next] at acts
      show Shape (s :: (parseTables.counted tokens c).states) (.leaf t :: _)
      rw [counted_states, counted_trees]
      exact h.shift acts
  | reduce found onTrees onStates children_length popped_length goto =>
      rw [found] at acts
      exact h.reduce acts onTrees onStates children_length popped_length goto

/-- In all configurations of a run, the stacks have such a shape. -/
theorem shape_of_reachable (h : Reachable parseTables tokens c) : Shape c.states c.trees := by
  refine h.induction (motive := fun c => Shape c.states c.trees) ?_ ?_
  · exact .nothing
  · intro c d _ shape goes
    exact shape.step goes

/-- Only the empty list is not paid for by a token. -/
theorem reductions_le (h : Reachable parseTables tokens c) : c.reductions ≤ c.shifts + 1 := by
  have kept := h.conserved
  have size := (shape_of_reachable h).size_le
  have index := kept.index_eq_shifts
  rw [kept.size_eq, kept.frontier_eq, List.length_take, Configuration.turnsTaken] at size
  omega

end ItemList

end TableParsing
