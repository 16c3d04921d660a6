import TableParsing.Proofs.Automaton.Loading
import TableParsing.Proofs.Lexing.Construction

/-!
# Lexers with stored automata

Tables can hold an image of automata instead of patterns. If the image has all of them, the lexer of
these tables does on every source what a lexer with the same automata does that was made from
patterns. If the image ends too early, there is no lexer, as no automata can be loaded.

Lexing looks at the start mode, the rules and the actions of the tables, and at the automata that
the lexer holds. It never looks at patterns or at an image, so `lexFrom_withImage` is by induction
on the run itself: at each step both lexers find the same match and perform the same action on it.
-/

namespace TableParsing

variable {T R M : Type}

/-- Tables with stored automata. Their patterns do not matter then, and may be any. -/
def LexTables.withImage (tables : LexTables T R M) (image : Image) (others : List (List String)) :
    LexTables T R M :=
  { tables with patterns := others, image? := some image }

namespace Lexer

variable {tables : LexTables T R M} {image : Image} {others : List (List String)}
variable {as : List Automaton} {automata : Array Automaton}

/-- What can be loaded gives a lexer, whatever the patterns are. -/
theorem ofTables_of_load (loaded : image.load tables.modeCount = .ok as) :
    ofTables (tables.withImage image others) = .ok ⟨tables.withImage image others, as.toArray⟩ := by
  have automata : loadAutomata tables.modeCount image = .ok as := by rw [loadAutomata, loaded]
  simp only [ofTables, LexTables.withImage, automata]

theorem ofTables_of_fault {fault : Image.Fault}
    (failed : image.load tables.modeCount = .error fault) :
    ofTables (tables.withImage image others) = .error (.image fault) := by
  have automata : loadAutomata tables.modeCount image = .error (.image fault) := by
    rw [loadAutomata, failed]
  simp only [ofTables, LexTables.withImage, automata]

theorem rule_withImage : (tables.withImage image others).rule = tables.rule := rfl

theorem action_withImage : (tables.withImage image others).action = tables.action := rfl

theorem finish_withImage [DecidableEq M] :
    finish ⟨tables.withImage image others, automata⟩ = finish ⟨tables, automata⟩ := rfl

theorem match?_withImage [Entry M] :
    match? ⟨tables.withImage image others, automata⟩ = match? ⟨tables, automata⟩ := rfl

variable [DecidableEq M] [Entry M]

/-- From any point of a run on, an image makes no difference to a lexer with given automata. -/
theorem lexFrom_withImage (p : LexProgress T R M) (before : Option UInt8) (offset : Nat)
    (bytes : List UInt8) :
    lexFrom ⟨tables.withImage image others, automata⟩ p before offset bytes =
      lexFrom ⟨tables, automata⟩ p before offset bytes := by
  fun_induction lexFrom ⟨tables, automata⟩ p before offset bytes with
  | case1 p before offset => rw [lexFrom, finish_withImage]
  | case2 p before offset b rest searched e missing =>
      rw [lexFrom, match?_withImage]
      simp only [searched, missing]
  | case3 p before offset b rest searched m found rule span noted e performed =>
      rw [lexFrom, match?_withImage]
      simp only [searched, found, rule_withImage, action_withImage]
      rw [show noted.perform _ span = _ from performed]
  | case4 p before offset b rest searched m found rule span noted q performed ih =>
      rw [lexFrom, match?_withImage]
      simp only [searched, found, rule_withImage, action_withImage]
      rw [show noted.perform _ span = _ from performed]
      exact ih

theorem lex_withImage (source : Source) :
    lex ⟨tables.withImage image others, automata⟩ source = lex ⟨tables, automata⟩ source :=
  lexFrom_withImage _ none 0 source.toList

variable {encoding : Encoding Automaton}

/-- Automata that were stored one after the other, from a multiple of four on, are all loaded again
in order if the bytes go at least to the end of the last of them. Then the lexer of the image does
on every source what a lexer does that was made from patterns and has these automata: it has the
same result, and leaves the same diagnostics, whatever they were before. If the bytes end earlier,
no automata are loaded, and there is no lexer. -/
theorem ofTables_stored (h : encoding.SelfDelimiting) {address : Nat} (aligned : 4 ∣ address)
    (as : List Automaton) (n : Nat) (tables : LexTables T R M) (others : List (List String))
    (count : tables.modeCount = as.length) :
    let image := Image.cut encoding address as n
    let stored := tables.withImage image others
    (Image.extent encoding as ≤ n →
      image.load tables.modeCount = .ok as ∧
      ∃ loaded, ofTables stored = .ok loaded ∧ loaded.automata.toList = as ∧
        ∀ built, tables.image? = none → ofTables tables = .ok built → built.automata.toList = as →
          ∀ source d, (loaded.lex source).result = (built.lex source).result ∧
            (loaded.lex source).record source d = (built.lex source).record source d) ∧
    (n < Image.extent encoding as →
      image.load tables.modeCount = .error .malformed ∧
      ofTables stored = .error (.image .malformed)) := by
  intro image stored
  have load : image.load tables.modeCount = _ := count ▸ Image.load_cut h aligned as n
  constructor
  · intro all
    rw [if_pos all] at load
    refine ⟨load, ⟨stored, as.toArray⟩, ofTables_of_load load, rfl, ?_⟩
    intro built fresh made same source d
    have tables_eq : built.tables = tables := ((ofTables_eq_ok_iff fresh).mp made).same
    have alike : lex ⟨stored, as.toArray⟩ source = built.lex source := by
      rw [lex_withImage, ← same, ← tables_eq]
    rw [alike]
    exact ⟨rfl, rfl⟩
  · intro some_missing
    rw [if_neg (Nat.not_le_of_gt some_missing)] at load
    exact ⟨load, ofTables_of_fault load⟩

section Modes

/-- A sheet with three modes. Each mode begins another, so that a source can use all of them. -/
def modeSheet : LexSheet where
  modeCount := 3
  patterns := [["a"], ["b", "cd"], ["e"]]
  actions := #[#[.begin ⟨1⟩], #[.skip, .begin ⟨2⟩], #[.begin ⟨0⟩]]
  endActions := #[.skip, .skip, .skip]

/-- The automata of the modes. The bytes of none of them end at a multiple of four. -/
def modeAutomata : List Automaton :=
  [{ patterns := [.bytes (.singleton 97)] },
    { patterns := [.bytes (.singleton 98),
      .seq (.bytes (.singleton 99)) (.bytes (.singleton 100))] },
    { patterns := [.bytes (.singleton 101)] }]

def modeLexer : Lexer SheetTerminal SheetRule SheetMode :=
  ⟨modeSheet.tables none, modeAutomata.toArray⟩

/-- Tables of the sheet with some bytes of the stored automata, and without patterns. -/
def modeTables (n : Nat) : LexTables SheetTerminal SheetRule SheetMode :=
  (modeSheet.tables none).withImage (.cut Automaton.encoding 8 modeAutomata n) []

/-- The last automaton ends at 57, and three zeros follow it, which may be there or not. Fewer bytes
give no lexer, wherever they end: the other two automata end at 13 and 41, and the next after each
of them begins at 16 and 44. -/
theorem ofTables_stored_modes :
    Automaton.encoding.SelfDelimiting ∧ 4 ∣ 8 ∧
    (modeSheet.tables none).modeCount = modeAutomata.length ∧
    (modeSheet.tables none).image? = none ∧
    ofTables (modeSheet.tables none) = .ok modeLexer ∧
    modeLexer.automata.toList = modeAutomata ∧
    (∀ n ∈ [57, 58, 60], Image.extent Automaton.encoding modeAutomata ≤ n ∧
      ∃ loaded, ofTables (modeTables n) = .ok loaded ∧ loaded.automata.toList = modeAutomata ∧
        ∀ source d, (loaded.lex source).result = (modeLexer.lex source).result ∧
          (loaded.lex source).record source d = (modeLexer.lex source).record source d) ∧
    ∀ n ∈ [0, 12, 13, 15, 16, 40, 42, 56], n < Image.extent Automaton.encoding modeAutomata ∧
      ofTables (modeTables n) = .error (.image .malformed) := by
  have made : ofTables (modeSheet.tables none) = .ok modeLexer := by
    have built : buildAutomata (Engine.compilerOf Automaton) modeSheet.modeCount
        modeSheet.patterns = .ok modeAutomata := by decide +kernel
    simp only [ofTables, LexSheet.tables, built, modeLexer]
  have ends : Image.extent Automaton.encoding modeAutomata = 57 := by decide +kernel
  have late : ∀ n ∈ [57, 58, 60], 57 ≤ n := by decide
  have early : ∀ n ∈ [0, 12, 13, 15, 16, 40, 42, 56], n < 57 := by decide
  have stored (n : Nat) := ofTables_stored Automaton.selfDelimiting_encoding
    (by decide : 4 ∣ 8) modeAutomata n (modeSheet.tables none) [] rfl
  refine ⟨Automaton.selfDelimiting_encoding, by decide, rfl, rfl, made, rfl, ?_, ?_⟩
  · intro n listed
    have all : Image.extent Automaton.encoding modeAutomata ≤ n := by
      rw [ends]
      exact late n listed
    obtain ⟨-, loaded, found, same, alike⟩ := (stored n).1 all
    exact ⟨all, loaded, found, same, alike modeLexer rfl made rfl⟩
  · intro n listed
    have cut : n < Image.extent Automaton.encoding modeAutomata := by
      rw [ends]
      exact early n listed
    exact ⟨cut, ((stored n).2 cut).2⟩

end Modes

end Lexer

end TableParsing
