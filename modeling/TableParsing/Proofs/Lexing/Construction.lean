import Mathlib.Data.List.Forall2
import TableParsing.Automaton.Compiler
import TableParsing.Lexing.Lexer
import TableParsing.Sheet

/-!
# Making lexers from patterns

Tables give a lexer if they have one list of patterns for each mode, if the engine can read all
their texts, and if it makes an automaton of each list. Then there is one automaton for each mode,
in order. Several things can be wrong at once, and one of them is reported: the number of lists if
it is wrong, and otherwise something about the first mode that is not in order. Of its texts, the
first that cannot be read is reported, and only if all can be that there is no automaton of them.

What can be read and what has an automaton is for the engine to say, so all of this is about any
compiler.
-/

namespace TableParsing

namespace Lexer

section Patterns

variable {X N A : Type}

def Readable (c : Compiler X N A) (text : String) : Prop := ∃ x, c.read text = .ok x

/-- The patterns that texts are. -/
def ReadAs (c : Compiler X N A) (texts : List String) (xs : List X) : Prop :=
  List.Forall₂ (fun text x => c.read text = .ok x) texts xs

/-- The automaton that a list of patterns gives. -/
def Gives (c : Compiler X N A) (texts : List String) (a : A) : Prop :=
  ∃ xs n, ReadAs c texts xs ∧ c.combine xs = .ok n ∧ c.build n = .ok a

/-- A list of patterns that has an automaton. -/
def Buildable (c : Compiler X N A) (texts : List String) : Prop := ∃ a, Gives c texts a

/-- The first text of a list that is no pattern, and why it is none. -/
inductive Misread (c : Compiler X N A) : List String → String → String → Prop where
  | head {text message : String} {rest : List String} (wrong : c.read text = .error message) :
      Misread c (text :: rest) text message
  | tail {first text message : String} {rest : List String} (good : Readable c first)
      (later : Misread c rest text message) : Misread c (first :: rest) text message

/-- What is wrong with the patterns of a mode: the first that is none, or, if all are patterns, that
they cannot be put together, or that there is no automaton of what has been put together. -/
inductive ModeDefect (c : Compiler X N A) (mode : Nat) (texts : List String) :
    GrammarError → Prop where
  | pattern {text message : String} (misread : Misread c texts text message) :
      ModeDefect c mode texts (.pattern mode text message)
  | nfa {xs : List X} {message : String} (read : ReadAs c texts xs)
      (stuck : c.combine xs = .error message) : ModeDefect c mode texts (.nfa message)
  | dfa {xs : List X} {n : N} {message : String} (read : ReadAs c texts xs)
      (combined : c.combine xs = .ok n) (stuck : c.build n = .error message) :
      ModeDefect c mode texts (.dfa message)

/-- What is wrong with the first mode that is not in order, if modes are numbered from `mode`. -/
inductive FirstDefect (c : Compiler X N A) : Nat → List (List String) → GrammarError → Prop where
  | head {mode : Nat} {texts : List String} {rest : List (List String)} {e : GrammarError}
      (defect : ModeDefect c mode texts e) : FirstDefect c mode (texts :: rest) e
  | tail {mode : Nat} {texts : List String} {rest : List (List String)} {e : GrammarError}
      (good : Buildable c texts) (later : FirstDefect c (mode + 1) rest e) :
      FirstDefect c mode (texts :: rest) e

variable {c : Compiler X N A} {mode : Nat} {texts : List String} {text message : String}
variable {xs : List X} {patterns : List (List String)} {a : A} {as : List A} {e : GrammarError}

theorem ReadAs.forall_readable (h : ReadAs c texts xs) : ∀ text ∈ texts, Readable c text := by
  induction h with
  | nil => nofun
  | cons first _ ih => exact List.forall_mem_cons.mpr ⟨⟨_, first⟩, ih⟩

theorem Buildable.forall_readable (h : Buildable c texts) : ∀ text ∈ texts, Readable c text := by
  obtain ⟨a, xs, n, read, -⟩ := h
  exact read.forall_readable

theorem readPatterns_of_readAs (mode : Nat) (h : ReadAs c texts xs) :
    readPatterns c mode texts = .ok xs := by
  induction h with
  | nil => rfl
  | cons first _ ih => simp only [readPatterns, first, ih]

theorem readPatterns_of_misread (mode : Nat) (h : Misread c texts text message) :
    readPatterns c mode texts = .error (.pattern mode text message) := by
  induction h with
  | head wrong => simp only [readPatterns, wrong]
  | tail good _ ih =>
      obtain ⟨x, read⟩ := good
      simp only [readPatterns, read, ih]

/-- Either all texts are patterns or there is a first one that is none. -/
theorem readAs_or_misread (c : Compiler X N A) (texts : List String) :
    (∃ xs, ReadAs c texts xs) ∨ ∃ text message, Misread c texts text message := by
  induction texts with
  | nil => exact .inl ⟨[], .nil⟩
  | cons text texts ih =>
      cases first : c.read text with
      | error message => exact .inr ⟨text, message, .head first⟩
      | ok x =>
          obtain ⟨xs, others⟩ | ⟨wrong, message, misread⟩ := ih
          · exact .inl ⟨x :: xs, .cons first others⟩
          · exact .inr ⟨wrong, message, .tail ⟨x, first⟩ misread⟩

theorem buildMode_of_gives (mode : Nat) (h : Gives c texts a) : buildMode c mode texts = .ok a := by
  obtain ⟨xs, n, read, combined, built⟩ := h
  simp only [buildMode, readPatterns_of_readAs mode read, combined, built]

theorem buildMode_of_defect (h : ModeDefect c mode texts e) :
    buildMode c mode texts = .error e := by
  cases h with
  | pattern misread => simp only [buildMode, readPatterns_of_misread mode misread]
  | nfa read stuck => simp only [buildMode, readPatterns_of_readAs mode read, stuck]
  | dfa read combined stuck =>
      simp only [buildMode, readPatterns_of_readAs mode read, combined, stuck]

/-- Either a list of patterns has an automaton or something is wrong with it. -/
theorem buildable_or_modeDefect (c : Compiler X N A) (mode : Nat) (texts : List String) :
    Buildable c texts ∨ ∃ e, ModeDefect c mode texts e := by
  obtain ⟨xs, read⟩ | ⟨text, message, misread⟩ := readAs_or_misread c texts
  · cases combined : c.combine xs with
    | error message => exact .inr ⟨_, .nfa read combined⟩
    | ok n =>
        cases built : c.build n with
        | error message => exact .inr ⟨_, .dfa read combined built⟩
        | ok a => exact .inl ⟨a, xs, n, read, combined, built⟩
  · exact .inr ⟨_, .pattern misread⟩

theorem ModeDefect.not_buildable (h : ModeDefect c mode texts e) : ¬ Buildable c texts := by
  rintro ⟨a, gives⟩
  cases (buildMode_of_gives mode gives).symm.trans (buildMode_of_defect h)

theorem buildModes_of_forall₂ (mode : Nat) (h : List.Forall₂ (Gives c) patterns as) :
    buildModes c mode patterns = .ok as := by
  induction h generalizing mode with
  | nil => rfl
  | cons first _ ih => simp only [buildModes, buildMode_of_gives mode first, ih]

theorem buildModes_of_defect (h : FirstDefect c mode patterns e) :
    buildModes c mode patterns = .error e := by
  induction h with
  | head defect => simp only [buildModes, buildMode_of_defect defect]
  | @tail mode _ _ _ good _ ih =>
      obtain ⟨a, gives⟩ := good
      simp only [buildModes, buildMode_of_gives mode gives, ih]

/-- Either all lists have automata or there is a first one with which something is wrong. -/
theorem forall₂_or_firstDefect (c : Compiler X N A) (mode : Nat) (patterns : List (List String)) :
    (∃ as, List.Forall₂ (Gives c) patterns as) ∨ ∃ e, FirstDefect c mode patterns e := by
  induction patterns generalizing mode with
  | nil => exact .inl ⟨[], .nil⟩
  | cons texts rest ih =>
      obtain ⟨a, gives⟩ | ⟨e, defect⟩ := buildable_or_modeDefect c mode texts
      · obtain ⟨as, others⟩ | ⟨e, later⟩ := ih (mode + 1)
        · exact .inl ⟨a :: as, .cons gives others⟩
        · exact .inr ⟨e, .tail ⟨a, gives⟩ later⟩
      · exact .inr ⟨e, .head defect⟩

/-- A first mode with which something is wrong has no automaton. -/
theorem FirstDefect.exists_not_buildable (h : FirstDefect c mode patterns e) :
    ∃ texts ∈ patterns, ¬ Buildable c texts := by
  induction h with
  | head defect => exact ⟨_, List.mem_cons_self, defect.not_buildable⟩
  | tail _ _ ih =>
      obtain ⟨texts, mem, stuck⟩ := ih
      exact ⟨texts, List.mem_cons_of_mem _ mem, stuck⟩

end Patterns

section Tables

variable {T R M A X N S : Type} [Engine A X N S] {tables : LexTables T R M A}
variable {lexer : Lexer T R M A} {automata : List A} {e : GrammarError}

/-- What is wrong with tables without stored automata: the number of their lists, or if that is
right, the first mode that is not in order. -/
inductive Defect (tables : LexTables T R M A) : GrammarError → Prop where
  | modeCount (differs : tables.patterns.length ≠ tables.modeCount) :
      Defect tables (.modeCount tables.modeCount tables.patterns.length)
  | mode {e : GrammarError} (count : tables.patterns.length = tables.modeCount)
      (first : FirstDefect (Engine.compilerOf A) 0 tables.patterns e) :
      Defect tables e

/-- A lexer over the tables, with the automaton of each list of patterns in order. -/
structure MadeFrom (tables : LexTables T R M A) (lexer : Lexer T R M A) : Prop where
  same : lexer.tables = tables
  automata : List.Forall₂ (Gives (Engine.compilerOf A)) tables.patterns
    lexer.automata.toList
  size : lexer.automata.size = tables.modeCount

/-- Without stored automata, the lexer of tables has those that its patterns give. -/
theorem ofTables_of_patterns (fresh : tables.image? = none)
    (count : tables.patterns.length = tables.modeCount)
    (read : buildModes (Engine.compilerOf A) 0 tables.patterns = .ok automata) :
    ofTables tables = .ok ⟨tables, automata.toArray⟩ := by
  have built : buildAutomata (Engine.compilerOf A) tables.modeCount tables.patterns =
      .ok automata := by
    rw [buildAutomata, if_neg (not_not_intro count), read]
  simp only [ofTables, fresh, built]

theorem ofTables_of_defect (fresh : tables.image? = none) (h : Defect tables e) :
    ofTables tables = .error e := by
  have failed : buildAutomata (Engine.compilerOf A) tables.modeCount tables.patterns =
      .error e := by
    cases h with
    | modeCount differs => rw [buildAutomata, if_pos differs]
    | mode count first =>
        rw [buildAutomata, if_neg (not_not_intro count), buildModes_of_defect first]
  simp only [ofTables, fresh, failed]

theorem ofTables_of_madeFrom (fresh : tables.image? = none) (h : MadeFrom tables lexer) :
    ofTables tables = .ok lexer := by
  obtain ⟨rfl, gives, size⟩ := h
  have count : lexer.tables.patterns.length = lexer.tables.modeCount := by
    rw [gives.length_eq, Array.length_toList, size]
  exact ofTables_of_patterns fresh count (buildModes_of_forall₂ 0 gives)

theorem madeFrom_or_defect (tables : LexTables T R M A) :
    (∃ lexer, MadeFrom tables lexer) ∨ ∃ e, Defect tables e := by
  by_cases count : tables.patterns.length = tables.modeCount
  · obtain ⟨as, gives⟩ | ⟨e, first⟩ :=
      forall₂_or_firstDefect (Engine.compilerOf A) 0 tables.patterns
    · refine .inl ⟨⟨tables, as.toArray⟩, rfl, gives, ?_⟩
      rw [← count, gives.length_eq, List.size_toArray]
    · exact .inr ⟨e, .mode count first⟩
  · exact .inr ⟨_, .modeCount count⟩

theorem ofTables_eq_ok_iff (fresh : tables.image? = none) :
    ofTables tables = .ok lexer ↔ MadeFrom tables lexer := by
  constructor
  · intro made
    obtain ⟨other, good⟩ | ⟨e, defect⟩ := madeFrom_or_defect tables
    · have same := (ofTables_of_madeFrom fresh good).symm.trans made
      rw [← Except.ok.inj same]
      exact good
    · exact absurd ((ofTables_of_defect fresh defect).symm.trans made) nofun
  · exact ofTables_of_madeFrom fresh

theorem ofTables_eq_error_iff (fresh : tables.image? = none) :
    ofTables tables = .error e ↔ Defect tables e := by
  constructor
  · intro failed
    obtain ⟨lexer, good⟩ | ⟨other, defect⟩ := madeFrom_or_defect tables
    · exact absurd ((ofTables_of_madeFrom fresh good).symm.trans failed) nofun
    · have same := (ofTables_of_defect fresh defect).symm.trans failed
      rw [← Except.error.inj same]
      exact defect
  · exact ofTables_of_defect fresh

/-- Tables have a lexer if nothing is wrong with any mode, and none is missing or left over. -/
theorem exists_madeFrom_iff : (∃ lexer, MadeFrom tables lexer) ↔
    tables.patterns.length = tables.modeCount ∧ ∀ texts ∈ tables.patterns,
      (∀ text ∈ texts, Readable (Engine.compilerOf A) text) ∧
        Buildable (Engine.compilerOf A) texts := by
  constructor
  · rintro ⟨lexer, -, gives, size⟩
    refine ⟨by rw [gives.length_eq, Array.length_toList, size], fun texts mem => ?_⟩
    obtain ⟨i, inside, rfl⟩ := List.getElem_of_mem mem
    have built : Buildable (Engine.compilerOf A) tables.patterns[i] :=
      ⟨_, gives.get inside (gives.length_eq ▸ inside)⟩
    exact ⟨built.forall_readable, built⟩
  · rintro ⟨count, good⟩
    obtain found | ⟨e, defect⟩ := madeFrom_or_defect tables
    · exact found
    · cases defect with
      | modeCount differs => exact absurd count differs
      | mode _ first =>
          obtain ⟨texts, mem, stuck⟩ := first.exists_not_buildable
          exact absurd (good texts mem).2 stuck

/-- Whatever the engine is, tables without stored automata give a lexer exactly if they have as many
lists of patterns as modes, the engine reads all texts as patterns and makes automata of all lists.
The lexer then has the automaton of each mode, in order. Otherwise the number of lists is reported
if it is wrong, whatever the lists are, and the first thing that is wrong with the first mode that
is not in order if it is right. -/
theorem ofTables_outcome (fresh : tables.image? = none) :
    ((∃ lexer, ofTables tables = .ok lexer) ↔
      tables.patterns.length = tables.modeCount ∧ ∀ texts ∈ tables.patterns,
        (∀ text ∈ texts, Readable (Engine.compilerOf A) text) ∧
          Buildable (Engine.compilerOf A) texts) ∧
    (∀ lexer, ofTables tables = .ok lexer ↔ MadeFrom tables lexer) ∧
    ∀ e, ofTables tables = .error e ↔ Defect tables e := by
  refine ⟨?succeeds, fun lexer => ofTables_eq_ok_iff fresh, fun e => ofTables_eq_error_iff fresh⟩
  case succeeds =>
    simp only [ofTables_eq_ok_iff fresh]
    exact exists_madeFrom_iff

end Tables

/-- A sheet of which only the first mode is in order. A text of the third is no pattern. -/
def disorder : LexSheet where
  modeCount := 3
  patterns := [["a"], ["b", "\\b"], ["c", "("]]
  actions := #[]
  endActions := #[]

/-- Patterns without an automaton come before a text that is no pattern if their mode does. -/
theorem ofTables_disorder : (disorder.tables none).image? = none ∧
    ¬ Readable (Engine.compilerOf Automaton) "(" ∧
    Defect (disorder.tables none) (.dfa Automaton.unicodeWordMessage) := by
  have built : buildAutomata (Engine.compilerOf Automaton) disorder.modeCount disorder.patterns =
      .error (.dfa Automaton.unicodeWordMessage) := by decide +kernel
  have failed : ofTables (disorder.tables none) = .error (.dfa Automaton.unicodeWordMessage) := by
    simp only [ofTables, LexSheet.tables, built]
  have fresh : (disorder.tables none).image? = none := rfl
  have refused : (Engine.compilerOf Automaton).read "(" = .error "regex parse error" := by
    have unread : Pattern.read? "(" = none := by decide +kernel
    simp only [Engine.compilerOf, Engine.compiler, Automaton.compiler, unread]
  obtain ⟨-, -, defect⟩ := ofTables_outcome fresh
  refine ⟨fresh, ?_, (defect _).mp failed⟩
  rintro ⟨p, read⟩
  cases refused.symm.trans read

end Lexer

end TableParsing
