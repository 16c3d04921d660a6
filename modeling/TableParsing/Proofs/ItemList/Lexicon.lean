import TableParsing.ItemList.Pipeline
import TableParsing.Proofs.Lexing.Patterns
import TableParsing.Proofs.Text.Bounded

/-!
# The matches of the lexer of lists

The automata of the two modes are known, and the kind of the first byte tells what begins outside of
comments. Behind the letter both an item and a pair can go on, so the next byte decides between
them. Inside of comments a byte is a newline or it is not.
-/

namespace TableParsing

namespace ItemList

def letter : UInt8 := 0x61

def semicolon : UInt8 := 0x3B

def space : UInt8 := 0x20

def newline : UInt8 := 0x0A

def hash : UInt8 := 0x23

/-- Space and newline. -/
def blanks : ByteSet := ⟨[(0x0A, 0x0A), (0x20, 0x20)]⟩

def lineBytes : ByteSet := ⟨[(0x00, 0x09), (0x0B, 0xFF)]⟩

inductive Kind where
  | letter
  | semicolon
  | blank
  | hash
  | illegal
  deriving DecidableEq

def kind (b : UInt8) : Kind :=
  if b = letter then .letter
  else if b = semicolon then .semicolon
  else if blanks.contains b then .blank
  else if b = hash then .hash
  else .illegal

def outside : Automaton where
  patterns := [.bytes (.singleton letter),
    .seq (.bytes (.singleton letter)) (.bytes (.singleton letter)), .bytes (.singleton semicolon),
    .repetition (.bytes blanks) 1 none, .bytes (.singleton hash)]

def inside : Automaton where
  patterns := [.bytes (.singleton newline), .repetition (.bytes lineBytes) 1 none]

def lexer : Lexer Lexeme Rule Mode := ⟨lexTables, #[outside, inside]⟩

theorem buildModes_patterns :
    Lexer.buildModes (Engine.compilerOf Automaton) 0 lexTables.patterns =
      .ok [outside, inside] := by
  decide +kernel

theorem lexer?_eq : lexer? = .ok lexer :=
  Lexer.ofTables_of_patterns rfl rfl buildModes_patterns

/-- A byte belongs to the set of its own kind only. -/
theorem contains_eq (b : UInt8) :
    (ByteSet.singleton letter).contains b = decide (kind b = .letter) ∧
      (ByteSet.singleton semicolon).contains b = decide (kind b = .semicolon) ∧
      blanks.contains b = decide (kind b = .blank) ∧
      (ByteSet.singleton hash).contains b = decide (kind b = .hash) := by
  revert b
  exact forall_byte (by decide +kernel)

/-- Each kind of byte by name. -/
theorem kind_eq_iff (b : UInt8) :
    (kind b = .letter ↔ b = letter) ∧ (kind b = .semicolon ↔ b = semicolon) ∧
      (kind b = .blank ↔ b = space ∨ b = newline) ∧ (kind b = .hash ↔ b = hash) := by
  revert b
  exact forall_byte (by decide +kernel)

/-- What is left to match outside of comments behind a first byte of some kind. -/
def afterKind : Kind → Automaton.State
  | .letter => [(0, [.empty]), (1, [.bytes (.singleton letter)])]
  | .semicolon => [(2, [.empty])]
  | .blank => [(3, [.repetition (.bytes blanks) 0 none])]
  | .hash => [(4, [.empty])]
  | .illegal => []

theorem advance_outside (c : Context) (b : UInt8) :
    outside.start.advance c b = afterKind (kind b) := by
  obtain ⟨h1, h2, h3, h4⟩ := contains_eq b
  simp only [Automaton.start, outside, List.zipIdx_cons, List.zipIdx_nil, List.map_cons,
    List.map_nil, Automaton.State.advance, List.filterMap_cons, List.filterMap_nil,
    List.flatMap_cons, List.flatMap_nil, List.append_nil, Regex.derivatives, Regex.owed,
    Regex.matchesEmpty, h1, h2, h3, h4]
  generalize kind b = k
  cases k <;> rfl

theorem contains_lineBytes (b : UInt8) : lineBytes.contains b = !decide (b = newline) := by
  revert b
  exact forall_byte (by decide +kernel)

theorem advance_inside (c : Context) (b : UInt8) :
    inside.start.advance c b =
      if b = newline then [(0, [.empty])] else [(1, [.repetition (.bytes lineBytes) 0 none])] := by
  have other := contains_lineBytes b
  have single : (ByteSet.singleton newline).contains b = decide (b = newline) := by
    rw [Bool.eq_iff_iff, ByteSet.contains_singleton_iff, decide_eq_true_eq]
  simp only [Automaton.start, inside, List.zipIdx_cons, List.zipIdx_nil, List.map_cons,
    List.map_nil, Automaton.State.advance, List.filterMap_cons, List.filterMap_nil,
    List.flatMap_cons, List.flatMap_nil, List.append_nil, Regex.derivatives, Regex.owed,
    Regex.matchesEmpty, other, single]
  by_cases ends : b = newline
  · simp only [ends]
    rfl
  · simp only [ends]
    rfl

section Searches

variable {src : Source} {b : UInt8} {rest : List UInt8} {offset : Nat} {m : Match}

theorem takes_outside (finds : outside.Finds src.toList offset m) :
    lexer.Takes src .main offset m :=
  ⟨outside, rfl, Automaton.refusal?_eq_none rfl rfl _, finds⟩

theorem takes_inside (finds : inside.Finds src.toList offset m) :
    lexer.Takes src .comment offset m :=
  ⟨inside, rfl, Automaton.refusal?_eq_none rfl rfl _, finds⟩

theorem mem_afterLetter (k : Nat) (rs : List Regex) :
    (k, rs) ∈ afterKind .letter ↔
      k = 0 ∧ rs = [.empty] ∨ k = 1 ∧ rs = [.bytes (.singleton letter)] := by
  simp [afterKind]

/-- Two letters are taken as a pair. -/
theorem takes_pair (remaining : src.toList.drop offset = b :: rest) (first : kind b = .letter)
    (second : rest.head? = some letter) :
    lexer.Takes src .main offset ⟨1, 2, Nat.two_pos⟩ := by
  obtain ⟨read, next⟩ := getElem?_of_drop remaining
  have state := (advance_outside (Context.of src.toList offset) b).trans (congrArg afterKind first)
  exact takes_outside (Automaton.finds_pair rfl read state mem_afterLetter (next.trans second))

/-- A letter with no other behind it is taken as an item. -/
theorem takes_item (remaining : src.toList.drop offset = b :: rest) (first : kind b = .letter)
    (alone : rest.head? ≠ some letter) :
    lexer.Takes src .main offset ⟨0, 1, Nat.one_pos⟩ := by
  obtain ⟨read, next⟩ := getElem?_of_drop remaining
  have state := (advance_outside (Context.of src.toList offset) b).trans (congrArg afterKind first)
  have other : src.toList[offset + 1]? ≠ some letter := fun h => alone (next.symm.trans h)
  exact takes_outside (Automaton.finds_single rfl read state mem_afterLetter other)

theorem takes_semicolon (remaining : src.toList.drop offset = b :: rest)
    (sign : kind b = .semicolon) : lexer.Takes src .main offset ⟨2, 1, Nat.one_pos⟩ :=
  takes_outside (Automaton.finds_byte rfl (getElem?_of_drop remaining).1
    ((advance_outside _ b).trans (congrArg afterKind sign)))

/-- Spaces and newlines are taken together. -/
theorem takes_blanks (remaining : src.toList.drop offset = b :: rest) (blank : kind b = .blank) :
    lexer.Takes src .main offset
      ⟨3, (rest.takeWhile blanks.contains).length + 1, Nat.succ_pos _⟩ :=
  takes_outside (Automaton.finds_run rfl remaining
    ((advance_outside _ b).trans (congrArg afterKind blank)))

theorem takes_hash (remaining : src.toList.drop offset = b :: rest) (sign : kind b = .hash) :
    lexer.Takes src .main offset ⟨4, 1, Nat.one_pos⟩ :=
  takes_outside (Automaton.finds_byte rfl (getElem?_of_drop remaining).1
    ((advance_outside _ b).trans (congrArg afterKind sign)))

/-- In front of an illegal byte nothing is found. -/
theorem unseen_illegal (read : src.toList[offset]? = some b) (illegal : kind b = .illegal) :
    ∀ j p, offset < j → ¬ outside.Sees src.toList offset j p :=
  Automaton.unseen_of_advance rfl read
    ((advance_outside _ b).trans (congrArg afterKind illegal))

/-- Inside of comments the rest of a line is taken as a whole. -/
theorem takes_line (remaining : src.toList.drop offset = b :: rest) (inLine : b ≠ newline) :
    lexer.Takes src .comment offset
      ⟨1, (rest.takeWhile lineBytes.contains).length + 1, Nat.succ_pos _⟩ :=
  takes_inside (Automaton.finds_run rfl remaining ((advance_inside _ b).trans (if_neg inLine)))

theorem takes_newline (remaining : src.toList.drop offset = newline :: rest) :
    lexer.Takes src .comment offset ⟨0, 1, Nat.one_pos⟩ :=
  takes_inside (Automaton.finds_byte rfl (getElem?_of_drop remaining).1
    ((advance_inside _ newline).trans (if_pos rfl)))

end Searches

end ItemList

end TableParsing
