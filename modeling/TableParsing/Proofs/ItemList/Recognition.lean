import TableParsing.Proofs.ItemList.Stack
import TableParsing.Proofs.Tree.Traversal

/-!
# Where a parser of lists stops

A parser of lists goes on in front of items and pairs, and at the end of the input it accepts. So it
stops early only in front of a stop mark, the first one that there is, and otherwise the tree is the
list of all tokens.
-/

namespace TableParsing

namespace ItemList

open ParseTables

theorem height_listTree (elements : List (Token Lexeme)) :
    (listTree elements).height = elements.length + 1 := by
  induction elements using List.reverseRecOn with
  | nil => rfl
  | append_singleton elements t ih =>
      rw [listTree_append, List.length_append, Tree.height, Tree.forestHeight, ih]
      simp only [Tree.forestHeight, Tree.height, List.length_singleton]
      omega

variable {tokens : TokenList Lexeme} {c d : Configuration Lexeme Phrase}

/-- In front of anything but the end there is a token. -/
theorem exists_token {a : Lexeme} (next : lookahead tokens c.index = a) (proper : a ≠ .finish) :
    ∃ t, tokens[c.index]? = some t ∧ t.terminal = a := by
  unfold lookahead at next
  cases read : tokens[c.index]? with
  | some t =>
      rw [read] at next
      exact ⟨t, rfl, next⟩
  | none =>
      rw [read] at next
      exact absurd next.symm proper

/-- Only items and pairs are consumed. -/
theorem ne_stop_of_mem_take (h : Reachable parseTables tokens c) :
    ∀ t ∈ tokens.toList.take c.index, t.terminal ≠ .stop := by
  refine h.induction
    (motive := fun c => ∀ t ∈ tokens.toList.take c.index, t.terminal ≠ .stop) ?_ ?_
  · intro t mem
    cases mem
  · intro c d _ kept goes
    cases advance_of_step goes with
    | @shift t s found read =>
        have acts := acts_turn tokens c
        have next : lookahead tokens c.index = t.terminal := by rw [lookahead, read]
        rw [found, next] at acts
        have isElement : t.terminal ≠ .stop := by
          intro isStop
          rw [isStop] at acts
          generalize c.state = q at acts
          cases acts
        have longer : tokens.toList.take (c.index + 1) = tokens.toList.take c.index ++ [t] := by
          rw [List.take_add_one, Array.getElem?_toList, read, Option.toList_some]
        simp only [Configuration.shifted, counted_index, longer, List.mem_append,
          List.mem_singleton]
        rintro u (earlier | rfl)
        · exact kept u earlier
        · exact isElement
    | reduce => simpa [Configuration.reduced] using kept

theorem counted_ambiguities (c : Configuration Lexeme Phrase) :
    (parseTables.counted tokens c).ambiguities = c.ambiguities :=
  counted_ambiguities_of_plain fun a => action_ne_ambig c.state _ a

/-- The tables leave no choice, so none is counted. -/
theorem ambiguities_eq_zero (h : Reachable parseTables tokens c) : c.ambiguities = 0 := by
  refine h.induction (motive := fun c => c.ambiguities = 0) rfl ?_
  intro c d _ none goes
  rw [ambiguities_of_step goes, counted_ambiguities c, none]

/-- At the end of a production anything but a stop mark lets a run go on. -/
theorem not_final_of_reduce {p : Production} {s top : StateId}
    {children trees : List (Tree Lexeme Phrase)} {popped below : List StateId}
    (entry : action c.state (lookahead tokens c.index) =
      endProduction p (lookahead tokens c.index))
    (continues : lookahead tokens c.index ≠ .stop) (onTrees : c.trees = children ++ trees)
    (onStates : c.states = popped ++ top :: below) (children_length : children.length = p.size)
    (popped_length : popped.length = p.size) (goto : goto top p.lhs = some s) :
    ¬ Final parseTables tokens c := by
  have reduces : endProduction p (lookahead tokens c.index) = .reduce p := by
    generalize lookahead tokens c.index = a at continues
    cases a with
    | stop => exact absurd rfl continues
    | item | pair | finish => rfl
  intro stops
  have performed := (turn_action tokens c).trans (entry.trans reduces)
  exact stops _ (step_of_reduce performed onTrees onStates children_length popped_length goto)

/-- Behind a list an item or a pair lets a run go on. -/
theorem not_final_of_shift {a : Lexeme} {s : StateId} (next : lookahead tokens c.index = a)
    (proper : a ≠ .finish) (entry : action c.state a = .shift s) :
    ¬ Final parseTables tokens c := by
  obtain ⟨t, read, _⟩ := exists_token next proper
  intro stops
  exact stops _ (step_of_shift ((turn_action tokens c).trans (next ▸ entry)) read)

/-- A run stops in front of a stop mark, or behind a list at the end. -/
theorem stop_or_list_of_final (h : Reachable parseTables tokens c)
    (stops : Final parseTables tokens c) :
    lookahead tokens c.index = .stop ∨ lookahead tokens c.index = .finish ∧ c.state = ⟨1⟩ ∧
      ∃ elements, c.trees = [listTree elements] := by
  by_cases marked : lookahead tokens c.index = .stop
  · exact .inl marked
  right
  have shape := shape_of_reachable h
  generalize onStates : c.states = states at shape
  generalize onTrees : c.trees = trees at shape
  have state : c.state :: c.below = states := onStates
  cases shape with
  | nothing =>
      have here : c.state = ⟨0⟩ := (List.cons.inj state).1
      exact absurd stops (not_final_of_reduce (by rw [here]; rfl) marked
        (show c.trees = [] ++ [] from onTrees) (show c.states = [] ++ [⟨0⟩] from onStates)
        rfl rfl rfl)
  | item elements isItem =>
      have here : c.state = ⟨2⟩ := (List.cons.inj state).1
      exact absurd stops (not_final_of_reduce (by rw [here]; rfl) marked
        (show c.trees = [_, _] ++ [] from onTrees)
        (show c.states = [⟨2⟩, ⟨1⟩] ++ [⟨0⟩] from onStates) rfl rfl rfl)
  | pair elements isPair =>
      have here : c.state = ⟨3⟩ := (List.cons.inj state).1
      exact absurd stops (not_final_of_reduce (by rw [here]; rfl) marked
        (show c.trees = [_, _] ++ [] from onTrees)
        (show c.states = [⟨3⟩, ⟨1⟩] ++ [⟨0⟩] from onStates) rfl rfl rfl)
  | list elements =>
      have here : c.state = ⟨1⟩ := (List.cons.inj state).1
      cases next : lookahead tokens c.index with
      | item => exact absurd stops (not_final_of_shift next (by decide) (by rw [here]; rfl))
      | pair => exact absurd stops (not_final_of_shift next (by decide) (by rw [here]; rfl))
      | stop => exact absurd next marked
      | finish => exact ⟨rfl, here, elements, rfl⟩

theorem action_stop (s : StateId) : action s .stop = .error := by
  obtain ⟨index⟩ := s
  match index with
  | 0 | 1 | 2 | 3 | _ + 4 => rfl

/-- The configuration in which a run ends: everything before it is an item or a pair. -/
structure Ending (tokens : TokenList Lexeme) (c : Configuration Lexeme Phrase) : Prop where
  reachable : Reachable parseTables tokens c
  counts : (parseTables.parse tokens).counters? = some (parseTables.counted tokens c).counters
  elements : ∀ t ∈ tokens.toList.take c.index, t.terminal ≠ .stop

/-- A run ends in front of a stop mark, which is reported, or behind a list of all tokens, which is
returned. -/
theorem exists_ending (unmarked : ∀ t ∈ tokens, t.terminal ≠ .finish) :
    ∃ c, Ending tokens c ∧
      ((∃ t, tokens[c.index]? = some t ∧ t.terminal = .stop ∧
          (parseTables.parse tokens).result = .error (.unexpectedToken t)) ∨
        (c.index = tokens.size ∧ c.trees = [listTree tokens.toList] ∧
          (parseTables.parse tokens).result = .ok (listTree tokens.toList))) := by
  obtain ⟨c, reached, stops, counts, ends⟩ := parse_ends
    fun d (hd : Reachable parseTables tokens d) => hd.turnsTaken_lt (reductions_le hd) (by decide)
  refine ⟨c, ⟨reached, counts, ne_stop_of_mem_take reached⟩, ?_⟩
  rcases stop_or_list_of_final reached stops with next | ⟨next, state, elements, onTrees⟩
  · obtain ⟨t, read, isStop⟩ := exists_token next (by decide)
    have refuses : (parseTables.turn tokens c).action = .error := by
      rw [turn_action, next, action_stop]
    have cause : (unexpected tokens c : ParseFailure Lexeme Phrase Production) =
        .unexpectedToken t := by
      rw [unexpected, read]
    rw [step_of_error refuses, cause] at ends
    exact .inl ⟨t, read, isStop, ends.eq_error⟩
  · have whole : c.index = tokens.size := by
      by_contra inside
      have bound := Nat.lt_of_le_of_ne reached.conserved.index_le_size inside
      have atEnd : tokens[c.index].terminal = .finish := by
        rwa [lookahead, Array.getElem?_eq_getElem bound] at next
      exact unmarked _ (Array.getElem_mem bound) atEnd
    have all : elements = tokens.toList := by
      have consumed := reached.conserved.frontier_eq
      rw [onTrees, whole, List.take_of_length_le (Nat.le_of_eq Array.length_toList)] at consumed
      simpa [Tree.forestFrontier, frontier_listTree] using consumed
    subst all
    have accepts : (parseTables.turn tokens c).action = .accept := by
      rw [turn_action, next, state]
      rfl
    rw [step_of_accept accepts onTrees, if_pos whole] at ends
    exact .inr ⟨whole, onTrees, ends.eq_ok⟩

/-- Without a stop mark, parsing returns the list of all tokens. It shifts each of them once, and
reduces once more. -/
theorem parse_elements (unmarked : ∀ t ∈ tokens, t.terminal ≠ .finish)
    (elements : ∀ t ∈ tokens, t.terminal ≠ .stop) :
    (parseTables.parse tokens).result = .ok (listTree tokens.toList) ∧
      ∀ d : Diagnostics, ((parseTables.parse tokens).record d).parser =
        ⟨tokens.size, tokens.size, tokens.size + 1, 0⟩ := by
  obtain ⟨c, ending, ⟨t, read, isStop, _⟩ | ⟨whole, onTrees, result⟩⟩ := exists_ending unmarked
  · exact absurd isStop (elements t (Array.mem_of_getElem? read))
  · refine ⟨result, fun d => ?_⟩
    have kept := ending.reachable.conserved
    have shifts := kept.index_eq_shifts
    have size := kept.size_eq
    rw [onTrees, Tree.forestSize, Tree.forestSize, size_listTree, Array.length_toList,
      Configuration.turnsTaken] at size
    have reductions : c.reductions = tokens.size + 1 := by omega
    rw [ParseRun.parser_of_record ending.counts]
    simp only [Configuration.counters, counted_index, counted_shifts, counted_reductions,
      counted_ambiguities, ambiguities_eq_zero ending.reachable]
    rw [← shifts, whole, reductions]

/-- If a tree is returned, there was no stop mark. -/
theorem elements_of_parse (unmarked : ∀ t ∈ tokens, t.terminal ≠ .finish)
    {tree : Tree Lexeme Phrase} (h : (parseTables.parse tokens).result = .ok tree) :
    ∀ t ∈ tokens, t.terminal ≠ .stop := by
  obtain ⟨c, ending, ⟨_, _, _, result⟩ | ⟨whole, _, _⟩⟩ := exists_ending unmarked
  · cases result.symm.trans h
  · have elements := ending.elements
    rw [whole, List.take_of_length_le (Nat.le_of_eq Array.length_toList)] at elements
    exact fun t mem => elements t (Array.mem_toList_iff.mpr mem)

theorem mem_take_of_lt {i n : Nat} {t : Token Lexeme} (read : tokens[i]? = some t) (lt : i < n) :
    t ∈ tokens.toList.take n := by
  apply List.mem_of_getElem?
  rw [List.getElem?_take_of_lt lt, Array.getElem?_toList, read]

/-- Parsing fails at the first stop mark, having consumed the tokens in front of it. -/
theorem parse_stop (unmarked : ∀ t ∈ tokens, t.terminal ≠ .finish) {i : Nat} {t : Token Lexeme}
    (read : tokens[i]? = some t) (isStop : t.terminal = .stop)
    (first : ∀ u ∈ tokens.toList.take i, u.terminal ≠ .stop) :
    (parseTables.parse tokens).result = .error (.unexpectedToken t) ∧
      ∀ d : Diagnostics, ((parseTables.parse tokens).record d).parser.tokens = i ∧
        ((parseTables.parse tokens).record d).parser.shifts = i := by
  obtain ⟨c, ending, ending'⟩ := exists_ending unmarked
  have le : c.index ≤ i := by
    by_contra later
    exact ending.elements t (mem_take_of_lt read (Nat.lt_of_not_le later)) isStop
  obtain ⟨t', read', isStop', result⟩ | ⟨whole, -, -⟩ := ending'
  · have same : c.index = i := by
      by_contra earlier
      exact first t' (mem_take_of_lt read' (Nat.lt_of_le_of_ne le earlier)) isStop'
    subst same
    obtain rfl := Option.some.inj (read.symm.trans read')
    have shifts := ending.reachable.conserved.index_eq_shifts
    refine ⟨result, fun d => ?_⟩
    rw [ParseRun.parser_of_record ending.counts]
    simp only [Configuration.counters, counted_index, counted_shifts, ← shifts, and_self]
  · have inside := (Array.getElem?_eq_some_iff.mp read).1
    omega

end ItemList

end TableParsing
