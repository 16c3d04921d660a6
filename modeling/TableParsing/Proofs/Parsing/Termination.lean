import TableParsing.Proofs.Parsing.Failure

/-!
# Runs that end by themselves

A turn that goes on shifts or reduces, and no more can be shifted than there are tokens. So if
tables never make many more reductions than shifts, a run ends, and it ends far below the bound on
turns.
How many more there can be at most is the credit of the tables: each shift pays for one reduction,
and the credit for the rest.
-/

namespace TableParsing

namespace ParseTables

variable {T N P : Type} [Terminal T] {tables : ParseTables T N P} {tokens : TokenList T}
variable {past : List (Configuration T N)} {c : Configuration T N} {credit : Nat}

/-- A way has as many configurations as turns have been taken. -/
theorem Trace.length_eq (h : Trace tables tokens past c) : past.length = c.turnsTaken := by
  induction h with
  | start => rfl
  | next _ goes ih => rw [List.length_cons, ih, turnsTaken_of_step goes]

/-- At every moment of a run, all reductions but for a credit are paid for by shifts. -/
def Pays (tables : ParseTables T N P) (tokens : TokenList T) (credit : Nat) : Prop :=
  ∀ c, Reachable tables tokens c → c.reductions ≤ c.shifts + credit

/-- Parsing that ends by itself, with reductions paid for at every moment and, therefore, not many
more turns than two for each shift. The last turn is the one that does not go on. -/
structure EndsWithin (tables : ParseTables T N P) (tokens : TokenList T) (credit : Nat) :
    Prop where
  halts : Halts tables tokens (tables.parse tokens)
  pays : Pays tables tokens credit
  turns_le : (tables.parse tokens).turns.length ≤
    2 * (tables.parse tokens).final.shifts + credit + 1

/-- If reductions are paid for with a small credit, parsing ends by itself. -/
theorem Pays.halts (pays : Pays tables tokens credit) (small : credit < 0x100000000) :
    Halts tables tokens (tables.parse tokens) := by
  obtain ⟨d, _, _, _, last⟩ := parse_ends fun c (h : Reachable tables tokens c) =>
    h.turnsTaken_lt (pays c h) small
  have finishes := parse_finishes tables tokens
  generalize tables.parse tokens = run at last finishes
  cases finishes with
  | ends trace last' => exact .intro trace last'
  | exhausted =>
      -- No turn is out of memory.
      generalize stepped : tables.step tokens d = turnResult at last
      cases last with
      | failed => cases stops_of_step stepped

theorem Pays.endsWithin (pays : Pays tables tokens credit) (small : credit < 0x100000000) :
    EndsWithin tables tokens credit := by
  have halts := pays.halts small
  refine ⟨halts, pays, ?_⟩
  generalize tables.parse tokens = run at halts
  cases halts with
  | @intro past c _ trace =>
      have paid := pays c trace.reachable
      have length := trace.length_eq
      simp only [List.length_cons, List.length_map, counted_shifts, length,
        Configuration.turnsTaken]
      omega

end ParseTables

end TableParsing
