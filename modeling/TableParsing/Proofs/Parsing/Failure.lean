import TableParsing.Proofs.Parsing.Causality

/-!
# How a run fails

A turn that does not go on accepts or fails. `Stops` lists the ways to fail, each with what the turn
has found; nothing is assumed of the tables. A run is over with the first such turn, so a failure of
a whole run is that of a turn, unless the run is out of memory.
-/

namespace TableParsing

namespace ParseTables

variable {T N P : Type} {tables : ParseTables T N P} {tokens : TokenList T}
variable {c : Configuration T N} {p : P} {top : StateId}

/-- Reducing fails if the trees or the states under them are missing. -/
theorem reduce_of_short
    (short : c.trees.length < tables.size p ∨ c.states.length ≤ tables.size p) :
    tables.reduce c p = .failed (.underflow p) := by
  rw [reduce, splitFirst?_eq, splitFirst?_eq]
  by_cases enough : tables.size p ≤ c.trees.length
  · have few : c.states.length ≤ tables.size p := short.resolve_left (by omega)
    rw [List.drop_eq_nil_of_le few]
    split
    · next found =>
        split at found <;> cases found
    · rfl
  · rw [if_neg enough]

/-- If they are there, reducing takes them off and asks for the state to go on with. -/
theorem reduce_of_enough (enough : tables.size p ≤ c.trees.length)
    (onStates : c.states[tables.size p]? = some top) :
    tables.reduce c p =
      match tables.goto top (tables.lhs p) with
      | none => .failed (.noGoto (tables.lhs p) top)
      | some s =>
        .next (c.reduced (tables.lhs p) (c.trees.take (tables.size p))
          (c.trees.drop (tables.size p)) (c.states.drop (tables.size p)) s) := by
  obtain ⟨inside, rfl⟩ := List.getElem?_eq_some_iff.mp onStates
  rw [reduce, splitFirst?_eq, splitFirst?_eq, if_pos enough, if_pos (Nat.le_of_lt inside),
    List.drop_eq_getElem_cons inside]
  rfl

/-- Accepting fails unless there is one tree over all tokens. -/
theorem accept_of_bad (bad : ¬ (c.trees.length = 1 ∧ c.index = tokens.size)) :
    (accept tokens c : TurnResult T N P) =
      .failed (.badAccept (c.trees.length - 1) c.index tokens.size) := by
  rw [accept]
  split
  · next t onTrees =>
      rw [onTrees] at bad ⊢
      rw [if_neg fun whole => bad ⟨rfl, whole⟩]
      rfl
  · rfl

variable [Terminal T]

/-- A turn that reduces with enough trees and states. -/
theorem step_of_enough (action : (tables.turn tokens c).action = .reduce p)
    (enough : tables.size p ≤ c.trees.length) (onStates : c.states[tables.size p]? = some top) :
    tables.step tokens c =
      match tables.goto top (tables.lhs p) with
      | none => .failed (.noGoto (tables.lhs p) top)
      | some s =>
        .next ((tables.counted tokens c).reduced (tables.lhs p) (c.trees.take (tables.size p))
          (c.trees.drop (tables.size p)) (c.states.drop (tables.size p)) s) := by
  have enough' : tables.size p ≤ (tables.counted tokens c).trees.length := by
    rwa [counted_trees]
  have onStates' : (tables.counted tokens c).states[tables.size p]? = some top := by
    rwa [counted_states]
  rw [step_eq, action, perform, reduce_of_enough enough' onStates', counted_trees, counted_states]

/-- The ways in which a turn fails. -/
inductive Stops (tables : ParseTables T N P) (tokens : TokenList T) (c : Configuration T N) :
    ParseFailure T N P → Prop where
  | unexpectedToken {t : Token T} (action : (tables.turn tokens c).action = .error)
      (read : tokens[c.index]? = some t) : Stops tables tokens c (.unexpectedToken t)
  | unexpectedEnd (action : (tables.turn tokens c).action = .error)
      (atEnd : tokens[c.index]? = none) : Stops tables tokens c (.unexpectedEnd tokens.back?)
  | shiftAtEnd {s : StateId} (action : (tables.turn tokens c).action = .shift s)
      (atEnd : tokens[c.index]? = none) :
      Stops tables tokens c (.shiftAtEnd (lookahead tokens c.index))
  | underflow {p : P} (action : (tables.turn tokens c).action = .reduce p)
      (short : c.trees.length < tables.size p ∨ c.states.length ≤ tables.size p) :
      Stops tables tokens c (.underflow p)
  | noGoto {p : P} {top : StateId} (action : (tables.turn tokens c).action = .reduce p)
      (enough : tables.size p ≤ c.trees.length) (onStates : c.states[tables.size p]? = some top)
      (none : tables.goto top (tables.lhs p) = none) :
      Stops tables tokens c (.noGoto (tables.lhs p) top)
  | badAccept (action : (tables.turn tokens c).action = .accept)
      (bad : ¬ (c.trees.length = 1 ∧ c.index = tokens.size)) :
      Stops tables tokens c (.badAccept (c.trees.length - 1) c.index tokens.size)
  | badAmbig {a : AmbigId} (action : (tables.turn tokens c).action = .ambig a) :
      Stops tables tokens c (.badAction (.ambig a) (lookahead tokens c.index))
  | badGoto {s : StateId} (action : (tables.turn tokens c).action = .goto s) :
      Stops tables tokens c (.badAction (.goto s) (lookahead tokens c.index))

theorem Stops.step_eq_failed {f : ParseFailure T N P} (h : Stops tables tokens c f) :
    tables.step tokens c = .failed f := by
  cases h with
  | unexpectedToken action read => rw [step_of_error action, unexpected, read]
  | unexpectedEnd action atEnd => rw [step_of_error action, unexpected, atEnd]
  | shiftAtEnd action atEnd => rw [step_eq, action, perform, shift_eq, counted_index, atEnd]
  | underflow action short =>
      rw [step_eq, action, perform]
      exact reduce_of_short (by simpa using short)
  | noGoto action enough onStates none => rw [step_of_enough action enough onStates, none]
  | badAccept action bad =>
      rw [step_eq, action, perform, accept_of_bad (by simpa using bad)]
      simp
  | badAmbig action =>
      rw [step_eq, action]
      rfl
  | badGoto action =>
      rw [step_eq, action]
      rfl

theorem stops_of_step {f : ParseFailure T N P} (h : tables.step tokens c = .failed f) :
    Stops tables tokens c f := by
  have same {g : ParseFailure T N P} (stops : Stops tables tokens c g) :
      Stops tables tokens c f :=
    TurnResult.failed.inj (stops.step_eq_failed.symm.trans h) ▸ stops
  cases action : (tables.turn tokens c).action with
  | shift s =>
      cases read : tokens[c.index]? with
      | none => exact same (.shiftAtEnd action read)
      | some t => cases (step_of_shift action read).symm.trans h
  | reduce p =>
      by_cases short : c.trees.length < tables.size p ∨ c.states.length ≤ tables.size p
      · exact same (.underflow action short)
      · obtain ⟨enough, inside⟩ := not_or.mp short
        have onStates := List.getElem?_eq_getElem (Nat.lt_of_not_le inside)
        rw [step_of_enough action (Nat.le_of_not_lt enough) onStates] at h
        split at h
        · next none => exact same (.noGoto action (Nat.le_of_not_lt enough) onStates none)
        · cases h
  | accept =>
      by_cases bad : c.trees.length = 1 ∧ c.index = tokens.size
      · obtain ⟨one, whole⟩ := bad
        obtain ⟨t, onTrees⟩ := List.length_eq_one_iff.mp one
        rw [step_of_accept action onTrees, if_pos whole] at h
        cases h
      · exact same (.badAccept action bad)
  | error =>
      cases read : tokens[c.index]? with
      | none => exact same (.unexpectedEnd action read)
      | some t => exact same (.unexpectedToken action read)
  | ambig a => exact same (.badAmbig action)
  | goto s => exact same (.badGoto action)

/-- A turn fails for a cause exactly if it finds it. -/
theorem step_eq_failed_iff {f : ParseFailure T N P} :
    tables.step tokens c = .failed f ↔ Stops tables tokens c f :=
  ⟨stops_of_step, Stops.step_eq_failed⟩

/-- A turn accepts a tree exactly if the table says so, the tree is the only one, and all tokens are
consumed. -/
theorem step_eq_accepted_iff {t : Tree T N} :
    tables.step tokens c = .accepted t ↔
      (tables.turn tokens c).action = .accept ∧ c.trees = [t] ∧ c.index = tokens.size := by
  constructor
  · exact of_step_eq_accepted
  · rintro ⟨action, onTrees, whole⟩
    rw [step_of_accept action onTrees, if_pos whole]

/-- A configuration of a run has a way that leads to it. -/
theorem Reachable.exists_trace (h : Reachable tables tokens c) :
    ∃ past, Trace tables tokens past c := by
  refine h.induction (motive := fun c => ∃ past, Trace tables tokens past c) ⟨[], .start⟩ ?_
  rintro c d _ ⟨past, before⟩ goes
  exact ⟨c :: past, before.next goes⟩

/-- A run comes to its end in a configuration from which no turn goes on. -/
theorem Reachable.exists_comesTo {result : Except (ParseFailure T N P) (Tree T N)}
    (h : Reachable tables tokens c) (last : Ends (tables.step tokens c) result) :
    ∃ run, ComesTo tables tokens run ∧ run.result = result ∧
      run.final = tables.counted tokens c := by
  obtain ⟨past, trace⟩ := h.exists_trace
  exact ⟨_, (Halts.intro trace last).comesTo, rfl, rfl⟩

/-- If parsing fails and is not out of memory, the run has stopped for that failure. -/
theorem exists_stops_of_parse {f : ParseFailure T N P}
    (h : (tables.parse tokens).result = .error f) (ends : f ≠ .exhausted) :
    ∃ c, Reachable tables tokens c ∧ Stops tables tokens c f := by
  have finishes := parse_finishes tables tokens
  generalize tables.parse tokens = run at h finishes
  cases finishes with
  | exhausted => exact absurd (Except.error.inj h).symm ends
  | @ends past c result trace last =>
      obtain rfl : result = .error f := h
      refine ⟨c, trace.reachable, stops_of_step ?_⟩
      generalize tables.step tokens c = turnResult at last
      cases last
      rfl

end ParseTables

end TableParsing
