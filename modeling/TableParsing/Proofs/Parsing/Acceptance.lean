import TableParsing.Proofs.Parsing.Failure
import TableParsing.Proofs.Text.Bounded

/-!
# What is reported when tables accept

Tables may accept anywhere. The parser then looks at its stack: if there is one tree and no token is
left, the tree is returned, and otherwise a failure tells how many trees there are and how many of
the tokens have been consumed. Trees are counted as those under the topmost and one more, so with no
tree on the stack the text speaks of one.
-/

namespace TableParsing

namespace ParseTables

variable {T N P : Type}

/-- The text for an acceptance that comes to nothing. -/
def acceptText (trees consumed total : Nat) : String :=
  "parse tables accept with " ++ toString trees ++ " trees and " ++ toString consumed ++ " of " ++
    toString total ++ " tokens consumed"

theorem acceptText_eq {trees consumed total : Nat} : acceptText trees consumed total =
    "parse tables accept with " ++ toString trees ++ " trees and " ++ toString consumed ++ " of " ++
      toString total ++ " tokens consumed" := rfl

/-- With numbers of machine size, the text is stored in full. -/
theorem stored_acceptText {trees consumed total : Nat} (trees_lt : trees < 2 ^ 64)
    (consumed_lt : consumed < 2 ^ 64) (total_lt : total < 2 ^ 64) :
    Diagnostics.stored [acceptText trees consumed total] = acceptText trees consumed total := by
  apply Diagnostics.stored_singleton
  have first := utf8ByteSize_word_le trees_lt
  have second := utf8ByteSize_word_le consumed_lt
  have third := utf8ByteSize_word_le total_lt
  simp only [acceptText_eq, String.utf8ByteSize_append]
  show 25 + _ + 11 + _ + 4 + _ + 16 ≤ 256
  omega

variable [Terminal T] [Labelled N] [Labelled P] {tables : ParseTables T N P}
variable {tokens : TokenList T} {c : Configuration T N}

/-- The trees are counted from one. -/
theorem message_badAccept (trees consumed total : Nat) :
    (ParseFailure.badAccept (trees - 1) consumed total : ParseFailure T N P).message =
      acceptText (max trees 1) consumed total := by
  have shown : trees - 1 + 1 = max trees 1 := by omega
  show acceptText (trees - 1 + 1) consumed total = _
  rw [shown]

/-- A run that fails is recorded with its kind and its message. -/
theorem record_of_error {run : ParseRun T N P} {f : ParseFailure T N P}
    (h : run.result = .error f) (d : Diagnostics) :
    (run.record d).kind = some f.kind ∧
      (run.record d).message = Diagnostics.stored [f.message] := by
  simp only [ParseRun.record, h, Diagnostics.report, and_self]

/-- A run that has failed to accept, with the numbers that its text shows. -/
structure ReportsAccept (run : ParseRun T N P) (trees consumed total : Nat) : Prop where
  failed : ∃ f, run.result = .error f ∧ f.message = acceptText trees consumed total
  kind (d : Diagnostics) : (run.record d).kind = some .syntactic
  message (d : Diagnostics) (words : trees < 2 ^ 64 ∧ consumed < 2 ^ 64 ∧ total < 2 ^ 64) :
    (run.record d).message = acceptText trees consumed total

theorem reportsAccept_of_result {run : ParseRun T N P} {trees consumed total : Nat}
    (h : run.result = .error (.badAccept (trees - 1) consumed total)) :
    ReportsAccept run (max trees 1) consumed total := by
  have text := message_badAccept (T := T) (N := N) (P := P) trees consumed total
  refine ⟨⟨_, h, text⟩, ?_, ?_⟩
  · intro d
    exact (record_of_error h d).1
  · rintro d ⟨trees_lt, consumed_lt, total_lt⟩
    rw [(record_of_error h d).2, text, stored_acceptText trees_lt consumed_lt total_lt]

/-- Where the tables accept, a run ends. It returns a tree exactly if that is the only one and all
tokens are consumed. Otherwise it is a syntax error that shows how many trees there are, but at
least one, and how many of the tokens are consumed. -/
theorem accept_ends (reached : Reachable tables tokens c)
    (action : (tables.turn tokens c).action = .accept) :
    ∃ run, ComesTo tables tokens run ∧ run.final = tables.counted tokens c ∧
      (∀ t, run.result = .ok t ↔ c.trees = [t] ∧ c.index = tokens.size) ∧
      (¬ (c.trees.length = 1 ∧ c.index = tokens.size) →
        ReportsAccept run (max c.trees.length 1) c.index tokens.size) := by
  by_cases good : c.trees.length = 1 ∧ c.index = tokens.size
  · obtain ⟨one, whole⟩ := good
    obtain ⟨t, onTrees⟩ := List.length_eq_one_iff.mp one
    have accepts := step_eq_accepted_iff.mpr ⟨action, onTrees, whole⟩
    have last : Ends (tables.step tokens c) (.ok t) := accepts ▸ .accepted t
    obtain ⟨run, comes, result, final⟩ := reached.exists_comesTo last
    refine ⟨run, comes, final, ?_, fun bad => absurd ⟨one, whole⟩ bad⟩
    intro u
    rw [result, onTrees]
    simp [whole]
  · have fails := (Stops.badAccept action good).step_eq_failed
    have last : Ends (tables.step tokens c)
        (.error (.badAccept (c.trees.length - 1) c.index tokens.size)) := fails ▸ .failed _
    obtain ⟨run, comes, result, final⟩ := reached.exists_comesTo last
    refine ⟨run, comes, final, ?_, fun _ => reportsAccept_of_result result⟩
    intro u
    rw [result]
    constructor
    · nofun
    · rintro ⟨onTrees, whole⟩
      exact absurd ⟨by rw [onTrees]; rfl, whole⟩ good

/-- Tables that shift all items and pairs and accept in front of the end mark. -/
def shiftOnly : ParseTables ItemList.Lexeme ItemList.Phrase ItemList.Production :=
  { ItemList.parseTables with
    action := fun _ t => if t = .finish then .accept else .shift ⟨0⟩ }

def itemAndEnd : TokenList ItemList.Lexeme := #[⟨.item, ⟨0, 1⟩⟩, ⟨.finish, ⟨1, 1⟩⟩]

def beforeEnd : Configuration ItemList.Lexeme ItemList.Phrase :=
  { state := ⟨0⟩, below := [⟨0⟩], trees := [.leaf ⟨.item, ⟨0, 1⟩⟩], index := 1, shifts := 1 }

/-- An end mark among the tokens is a token that is left. -/
theorem accept_ends_early :
    Reachable shiftOnly itemAndEnd beforeEnd ∧
      (shiftOnly.turn itemAndEnd beforeEnd).action = .accept ∧
      ∃ run, ComesTo shiftOnly itemAndEnd run ∧ ReportsAccept run 1 1 2 ∧
        (run.record {}).message =
          "parse tables accept with 1 trees and 1 of 2 tokens consumed" := by
  have reached : Reachable shiftOnly itemAndEnd beforeEnd := .single rfl
  have action : (shiftOnly.turn itemAndEnd beforeEnd).action = .accept := rfl
  obtain ⟨run, comes, -, -, reports⟩ := accept_ends reached action
  have left := reports (by decide)
  exact ⟨reached, action, run, comes, left, left.message {} (by decide)⟩

/-- With nothing on the stack, the text speaks of one tree. -/
theorem accept_shows_one :
    Reachable shiftOnly #[] shiftOnly.initial ∧
      (shiftOnly.turn #[] shiftOnly.initial).action = .accept ∧
      (shiftOnly.initial : Configuration ItemList.Lexeme ItemList.Phrase).trees.length = 0 ∧
      (shiftOnly.parse #[]).result = .error (.badAccept 0 0 0) ∧
      ((shiftOnly.parse #[]).record {}).message =
        "parse tables accept with 1 trees and 0 of 0 tokens consumed" ∧
      ((shiftOnly.parse #[]).record {}).message ≠ acceptText 0 0 0 := by
  have result : (shiftOnly.parse #[]).result = .error (.badAccept (0 - 1) 0 0) := rfl
  have text : ((shiftOnly.parse #[]).record {}).message = acceptText 1 0 0 :=
    (reportsAccept_of_result result).message {} (by decide)
  refine ⟨.refl _, rfl, rfl, result, text, ?_⟩
  rw [text]
  decide

end ParseTables

end TableParsing
