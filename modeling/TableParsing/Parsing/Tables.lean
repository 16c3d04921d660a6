import TableParsing.Symbol

/-!
# Parser tables

A table-driven parser looks up an action for its state and the next terminal, and after a reduction
the state to go on with. Where a grammar leaves a choice between two actions, the table names an
ambiguity, which is resolved by looking at the next terminal again. Productions are known by what
they reduce to and by how many symbols they replace.
-/

namespace TableParsing

structure StateId where
  index : Nat
  deriving DecidableEq

instance : Entry StateId where
  index s := s.index
  form s := .numbered "StateID" s.index

/-- A choice that the tables leave open. -/
structure AmbigId where
  index : Nat
  deriving DecidableEq

instance : Entry AmbigId where
  index a := a.index
  form a := .numbered "AmbigID" a.index

inductive ParseAction (P : Type) where
  | error
  | accept
  /-- Consume the next token and go to a state. -/
  | shift (target : StateId)
  /-- Replace the right-hand side of a production by its left-hand side. -/
  | reduce (production : P)
  /-- Choose between two actions. -/
  | ambig (ambiguity : AmbigId)
  /-- Go to a state after a reduction. -/
  | goto (target : StateId)
  deriving DecidableEq

namespace ParseAction

def name {P : Type} [Entry P] : ParseAction P → String
  | .error => "Error"
  | .accept => "Accept"
  | .shift s => "Shift(" ++ Entry.name s ++ ")"
  | .reduce p => "Reduce(" ++ Entry.name p ++ ")"
  | .ambig a => "Ambig(" ++ Entry.name a ++ ")"
  | .goto s => "Goto(" ++ Entry.name s ++ ")"

end ParseAction

/-- The tables of a parser over terminals `T`, nonterminals `N` and productions `P`. -/
structure ParseTables (T N P : Type) where
  start : StateId
  action : StateId → T → ParseAction P
  /-- The state after a reduction to a nonterminal above a state, if there is one. -/
  goto : StateId → N → Option StateId
  /-- The two actions of a choice: to shift, and to reduce. -/
  candidates : AmbigId → ParseAction P × ParseAction P
  /-- The action that is chosen in front of a terminal; by default, to shift. -/
  resolve : AmbigId → T → ParseAction P := fun a _ => (candidates a).1
  /-- The nonterminal that a production reduces to. -/
  lhs : P → N
  /-- The number of symbols on the right-hand side of a production. -/
  size : P → Nat

namespace ParseTables

variable {T N P : Type}

/-- An entry of the table for states after reductions, as an action. -/
def gotoAction (tables : ParseTables T N P) (s : StateId) (n : N) : ParseAction P :=
  match tables.goto s n with
  | some target => .goto target
  | none => .error

end ParseTables

end TableParsing
