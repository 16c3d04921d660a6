import TableParsing.Proofs.Elementwise
import TableParsing.Proofs.Lexing.Patterns

/-!
# Searches with patterns

A search is described here by the patterns of the tables and not by automata. It finds the longest
range that is not empty and that some pattern matches, and of the patterns that match it the first
one. It finds nothing if there is no such range.

What a pattern matches is for the engine to say, and so is that its automata find it out.
`Engine.Faithful` is what is assumed of an engine, and the engine of this library is faithful to the
meaning of its regular expressions. That a search takes the longest match is proved of any faithful
engine. It neither depends on where the search stops nor on matches that are empty.
-/

namespace TableParsing

section Results

variable {α ε : Type} {found : Option α} {e : ε} {x : α}

theorem elim_eq_error_iff : found.elim (.error e) Except.ok = .error e ↔ found = none := by
  cases found with
  | none => exact ⟨fun _ => rfl, fun _ => rfl⟩
  | some y => exact ⟨nofun, nofun⟩

theorem elim_eq_ok_iff : found.elim (.error e) Except.ok = .ok x ↔ found = some x := by
  cases found with
  | none => exact ⟨nofun, nofun⟩
  | some y =>
      show Except.ok y = Except.ok x ↔ some y = some x
      rw [Except.ok.injEq, Option.some.injEq]

theorem toOption_elim : (found.elim (.error e) Except.ok).toOption = found := by
  cases found with
  | none | some => rfl

end Results

open Lexer (Gives)

section Engines

variable {A X N S : Type} [Engine A X N S] (Matches : X → List UInt8 → Nat → Nat → Prop)

/-- The pattern with the given number, of those listed, matches the bytes from `i` up to `j`. It may
look at what is in front of them and behind them. -/
def Engine.TextMatches (A : Type) {X N S : Type} [Engine A X N S]
    (Matches : X → List UInt8 → Nat → Nat → Prop) (texts : List String) (src : List UInt8)
    (i j p : Nat) : Prop :=
  ∃ text x, texts[p]? = some text ∧ (Engine.compilerOf A).read text = .ok x ∧
    Matches x src i j ∧ j ≤ src.length

/-- A search from `i` begins, with the automaton of a list of patterns. -/
structure Engine.Begins (texts : List String) (a : A) (src : List UInt8) (i : Nat) (begin : S) :
    Prop where
  gives : Gives (Engine.compilerOf A) texts a
  inside : i ≤ src.length
  started : Machine.start a (Context.of src i).before = .ok begin

/-- What is assumed of the automata that an engine makes, given what its patterns match. -/
structure Engine.Faithful (A : Type) {X N S : Type} [Engine A X N S]
    (Matches : X → List UInt8 → Nat → Nat → Prop) : Prop where
  /-- A search can begin anywhere. -/
  starts : ∀ {texts} {a : A}, Gives (Engine.compilerOf A) texts a →
    ∀ before, ∃ begin, Machine.start a before = .ok begin
  /-- A byte leads to a match state that lists the patterns that match in front of it, the first one
  first, and to no match state if there are none. -/
  onByte : ∀ {texts} {a : A} {src i begin k s b}, Engine.Begins texts a src i begin →
    Machine.Reached a src i begin k s → src[k]? = some b →
      Machine.Lists a (Machine.next a s b) (Engine.TextMatches A Matches texts src i k)
  /-- The end of the input does the same for the patterns that match up to there. -/
  atEnd : ∀ {texts} {a : A} {src i begin s}, Engine.Begins texts a src i begin →
    Machine.Reached a src i begin src.length s →
      Machine.Lists a (Machine.finish a s) (Engine.TextMatches A Matches texts src i src.length)
  /-- A dead state means that there is no longer match. -/
  dead : ∀ {texts} {a : A} {src i begin k s b}, Engine.Begins texts a src i begin →
    Machine.Reached a src i begin k s → src[k]? = some b →
      Machine.isDead a (Machine.next a s b) = true →
        ∀ j p, k < j → ¬ Engine.TextMatches A Matches texts src i j p
  /-- Automata give up on no byte. -/
  calm : ∀ {texts} {a : A} {src i begin k s b}, Engine.Begins texts a src i begin →
    Machine.Reached a src i begin k s → src[k]? = some b →
      Machine.isQuit a (Machine.next a s b) = false
  /-- Match states are worth a closer look. -/
  special : ∀ {texts} {a : A} {s}, Gives (Engine.compilerOf A) texts a →
    Machine.isMatch a s = true → Machine.isSpecial a s = true

variable {Matches} {texts : List String} {a : A} {src : List UInt8} {i : Nat} {begin : S}

/-- A search with an automaton of patterns sees what the patterns match. -/
theorem Engine.Faithful.follows (h : Engine.Faithful A Matches)
    (begins : Engine.Begins texts a src i begin) :
    Machine.Follows a src i begin (Engine.TextMatches A Matches texts src i) where
  onByte reached read := h.onByte begins reached read
  atEnd reached := h.atEnd begins reached
  stops reached read stopped := by
    rcases stopped with dead | quit
    · exact h.dead begins reached read dead
    · rw [h.calm begins reached read] at quit
      cases quit
  special found := h.special begins.gives found
  within := fun ⟨_, _, _, _, _, inside⟩ => inside

end Engines

/-- A pattern matches the bytes from `i` up to `j` if its expression over bytes does. -/
def Pattern.Matches (p : Pattern) (src : List UInt8) (i j : Nat) : Prop :=
  ∃ r, p.toRegex? false = some r ∧ Regex.Matches src r i j

namespace Automaton

variable {texts : List String} {a : Automaton} {src : List UInt8} {i j k p : Nat} {begin : Scan}

/-- An automaton of patterns matches what they match. -/
theorem patternMatches_iff_textMatches (h : Gives (Engine.compilerOf Automaton) texts a)
    (inside : i ≤ src.length) :
    a.PatternMatches src i j p ↔
      Engine.TextMatches Automaton Pattern.Matches texts src i j p := by
  obtain ⟨xs, ps, read, combined, built⟩ := h
  obtain rfl : xs = ps := Except.ok.inj combined
  obtain ⟨rs, expressions, rfl⟩ := build_eq_ok_iff.mp built
  have means := mapM_eq_some_iff.mp expressions
  constructor
  · rintro ⟨r, listed, matched⟩
    obtain ⟨x, listed', meaning⟩ := exists_getElem?_of_forall₂ means.flip listed
    obtain ⟨text, named, read'⟩ := exists_getElem?_of_forall₂ read.flip listed'
    refine ⟨text, x, named, read', ⟨r, meaning, matched⟩, ?_⟩
    rcases Nat.lt_or_eq_of_le matched.le with lt | rfl
    · exact matched.le_length lt
    · exact inside
  · rintro ⟨text, x, named, read', ⟨r, meaning, matched⟩, -⟩
    obtain ⟨x', listed', read''⟩ := exists_getElem?_of_forall₂ read named
    obtain rfl := Except.ok.inj (read'.symm.trans read'')
    obtain ⟨r', listed, meaning'⟩ := exists_getElem?_of_forall₂ means listed'
    obtain rfl := Option.some.inj (meaning.symm.trans meaning')
    exact ⟨r, listed, matched⟩

/-- What a search begins with, and what it sees. -/
theorem begin_of_begins (h : Engine.Begins texts a src i begin) :
    begin = a.begin (Context.of src i).before ∧
      Engine.TextMatches Automaton Pattern.Matches texts src i = a.Sees src i := by
  obtain ⟨gives, inside, started⟩ := h
  obtain ⟨never, anchored⟩ := plain_of_gives gives
  have begins := start_of_begins (refusal?_eq_none never anchored (Context.of src i).before)
  refine ⟨Except.ok.inj (started.symm.trans begins), ?_⟩
  funext j p
  rw [sees_iff_patternMatches never, patternMatches_iff_textMatches gives inside]

/-- The engine of this library is faithful. -/
theorem faithful : Engine.Faithful Automaton Pattern.Matches where
  starts gives before := by
    obtain ⟨never, anchored⟩ := plain_of_gives gives
    exact ⟨_, start_of_begins (refusal?_eq_none never anchored before)⟩
  onByte begins reached read := by
    obtain ⟨rfl, sees⟩ := begin_of_begins begins
    rw [sees]
    exact (follows _ begins.inside).onByte reached read
  atEnd begins reached := by
    obtain ⟨rfl, sees⟩ := begin_of_begins begins
    rw [sees]
    exact (follows _ begins.inside).atEnd reached
  dead begins reached read dead := by
    obtain ⟨rfl, sees⟩ := begin_of_begins begins
    rw [sees]
    exact (follows _ begins.inside).stops reached read (.inl dead)
  calm begins reached read := by
    obtain ⟨rfl, -⟩ := begin_of_begins begins
    obtain ⟨-, keeps⟩ := Scan.keeps_of_reached (reached.next read)
    exact Scan.isQuit_of_keeps (plain_of_gives begins.gives).1 keeps
  special _ found := Bool.or_eq_true_iff.mpr (.inl (Bool.or_eq_true_iff.mpr (.inl found)))

end Automaton

namespace Lexer

variable {T R M A X N S : Type} [Engine A X N S] {tables : LexTables T R M A}
variable {lexer : Lexer T R M A} {texts : List String} {a : A}
variable {Matches : X → List UInt8 → Nat → Nat → Prop}

/-- The longest match from an offset of the patterns listed, of the first one among equals. -/
abbrev LongestOf (A : Type) {X N S : Type} [Engine A X N S]
    (Matches : X → List UInt8 → Nat → Nat → Prop) (texts : List String) (src : List UInt8) (i : Nat)
    (m : Match) : Prop :=
  LongestMatch (Engine.TextMatches A Matches texts src i) i m.pattern m.length

/-- The automaton of a mode is that of its patterns. -/
theorem MadeFrom.exists_gives {n : Nat} (h : MadeFrom tables lexer)
    (listed : tables.patterns[n]? = some texts) :
    ∃ a, lexer.automata[n]? = some a ∧ Gives (Engine.compilerOf A) texts a := by
  obtain ⟨a, automaton, gives⟩ := exists_getElem?_of_forall₂ h.automata listed
  exact ⟨a, by rw [← Array.getElem?_toList, automaton], gives⟩

variable [Entry M] {source : Source} {mode : M} {offset : Nat} {b : UInt8} {rest : List UInt8}

/-- The search in a mode comes to what the search of its automaton comes to. -/
theorem match?_of_start {before : Option UInt8} {begin : S}
    (automaton : lexer.automata[Entry.index mode]? = some a)
    (started : Machine.start a before = .ok begin) :
    lexer.match? mode before offset b rest =
      (Machine.longestMatch? a begin (b :: rest)).elim (.error (.unmatched b offset)) .ok := by
  simp only [match?, automaton, started]
  cases Machine.longestMatch? a begin (b :: rest) with
  | none => rfl
  | some m => rfl

/-- With a faithful engine, a search inside a source, in a mode with listed patterns, finds the
longest match of them. It fails exactly if none of them matches any range that is not empty, and
there is no other failure. Matches that are empty make no difference, and neither does stopping
early or looking once more at the end. -/
theorem match?_outcome (faithful : Engine.Faithful A Matches)
    (built : ofTables tables = .ok lexer) (fresh : tables.image? = none)
    (listed : tables.patterns[Entry.index mode]? = some texts)
    (ahead : source.toList.drop offset = b :: rest) :
    let before := (Context.of source.toList offset).before
    let found := lexer.match? mode before offset b rest
    (found = .error (.unmatched b offset) ↔
      ∀ j p, offset < j → ¬ Engine.TextMatches A Matches texts source.toList offset j p) ∧
    (∀ m, found = .ok m ↔ LongestOf A Matches texts source.toList offset m) ∧
    ((∃ m, found = .ok m) ∨ found = .error (.unmatched b offset)) ∧
    ∃ a begin, lexer.automata[Entry.index mode]? = some a ∧ Machine.start a before = .ok begin ∧
      found.toOption.map Match.pair =
        (Machine.lastNoticed a begin none 0 (b :: rest)).filter (0 < ·.2) := by
  intro before found
  obtain ⟨a, automaton, gives⟩ := ((ofTables_eq_ok_iff fresh).mp built).exists_gives listed
  obtain ⟨begin, started⟩ := faithful.starts gives before
  have inside : offset ≤ source.toList.length := by
    have lengths := congrArg List.length ahead
    simp only [List.length_drop, List.length_cons] at lengths
    omega
  have follows := faithful.follows ⟨gives, inside, started⟩
  have search : found = (Machine.longestMatch? a begin (b :: rest)).elim _ .ok :=
    match?_of_start automaton started
  have none_iff := follows.longestMatch?_eq_none_iff inside
  have some_iff (m : Match) := follows.longestMatch?_eq_some_iff inside (m := m)
  have noticed := follows.map_pair_longestMatch? inside
  rw [ahead] at none_iff noticed
  simp only [ahead] at some_iff
  refine ⟨?_, fun m => ?_, ?_, a, begin, automaton, started, ?_⟩
  · rw [search, elim_eq_error_iff, none_iff]
  · rw [search, elim_eq_ok_iff, some_iff]
  · rw [search]
    cases Machine.longestMatch? a begin (b :: rest) with
    | none => exact .inr rfl
    | some m => exact .inl ⟨m, rfl⟩
  · rw [search, toOption_elim, noticed]

section Runs

/-- Patterns of which the first also matches nothing at all, the second can overtake it, and the
third looks at what is in front of it and behind it. -/
def runTexts : List String := ["a*", "aab", "(?-u:\\B)b$"]

def runSheet : LexSheet where
  modeCount := 1
  patterns := [runTexts]
  actions := #[]
  endActions := #[]

def runLexer : Lexer SheetTerminal SheetRule SheetMode where
  tables := runSheet.tables none
  automata := #[{ patterns := [.repetition (.bytes (.singleton 97)) 0 none,
    .seq (.bytes (.singleton 97)) (.seq (.bytes (.singleton 97)) (.bytes (.singleton 98))),
    .seq (.assertion (.word .interior)) (.seq (.bytes (.singleton 98)) (.assertion .textEnd))] }]

theorem ofTables_runs : ofTables (runSheet.tables none) = .ok runLexer := by
  have read : buildModes (Engine.compilerOf Automaton) 0 [runTexts] =
      .ok runLexer.automata.toList := by decide +kernel
  exact ofTables_of_patterns rfl rfl read

/-- A match is overtaken by that of another pattern, and one at the end of the input is found behind
a byte that it looks at. A match of nothing is none. -/
theorem match?_runs :
    Engine.Faithful Automaton Pattern.Matches ∧
    ofTables (runSheet.tables none) = .ok runLexer ∧
    LongestOf Automaton Pattern.Matches runTexts [97, 97, 98] 0 ⟨1, 3, Nat.succ_pos 2⟩ ∧
    LongestOf Automaton Pattern.Matches runTexts [97, 98] 1 ⟨2, 1, Nat.one_pos⟩ ∧
    ∀ j p, 0 < j → ¬ Engine.TextMatches Automaton Pattern.Matches runTexts [98] 0 j p := by
  have faithful := Automaton.faithful
  have fresh : (runSheet.tables none).image? = none := rfl
  have listed : (runSheet.tables none).patterns[Entry.index (⟨0⟩ : SheetMode)]? = some runTexts :=
    rfl
  refine ⟨faithful, ofTables_runs, ?_, ?_, ?_⟩
  · have ahead : (#[97, 97, 98] : Source).toList.drop 0 = 97 :: [97, 98] := rfl
    exact ((match?_outcome faithful ofTables_runs fresh listed ahead).2.1 _).mp rfl
  · have ahead : (#[97, 98] : Source).toList.drop 1 = 98 :: [] := rfl
    exact ((match?_outcome faithful ofTables_runs fresh listed ahead).2.1 _).mp rfl
  · have ahead : (#[98] : Source).toList.drop 0 = 98 :: [] := rfl
    exact (match?_outcome faithful ofTables_runs fresh listed ahead).1.mp rfl

end Runs

end Lexer

end TableParsing
