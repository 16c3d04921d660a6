import TableParsing.Parsing.Tables

/-!
# Reachable states

The states that a parser can enter from its start state, whatever the input and however choices are
settled.
-/

namespace TableParsing

namespace ParseTables

variable {T N P : Type}

/-- The states that shifting leads to, directly or as a choice. -/
def shiftTargets (tables : ParseTables T N P) : ParseAction P → List StateId
  | .shift s => [s]
  | .ambig a =>
    let (first, second) := tables.candidates a
    [first, second].filterMap fun
      | .shift s => some s
      | _ => none
  | _ => []

/-- The states that can follow a state on the stack. -/
def successors (tables : ParseTables T N P) (terminals : List T) (nonterminals : List N)
    (s : StateId) : List StateId :=
  terminals.flatMap (fun t => tables.shiftTargets (tables.action s t)) ++
    nonterminals.filterMap (tables.goto s)

/-- Follow successors from states not yet looked at, in at most the given number of rounds. -/
def closure (next : StateId → List StateId) : Nat → List StateId → List StateId → List StateId
  | 0, seen, _ => seen
  | rounds + 1, seen, fresh =>
    match ((fresh.flatMap next).eraseDups).filter (· ∉ seen) with
    | [] => seen
    | found => closure next rounds (seen ++ found) found

/-- The states that can be reached, given a bound on their number. -/
def reachable (tables : ParseTables T N P) (terminals : List T) (nonterminals : List N)
    (bound : Nat) : List StateId :=
  closure (tables.successors terminals nonterminals) bound [tables.start] [tables.start]

end ParseTables

end TableParsing
