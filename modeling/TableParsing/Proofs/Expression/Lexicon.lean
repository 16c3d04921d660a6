import TableParsing.Expression.Pipeline
import TableParsing.Proofs.Lexing.Patterns
import TableParsing.Proofs.Text.Bounded

/-!
# The matches of the lexer of expressions

The automata of the two modes are known. Outside of comments the kind of a byte tells what begins
there, since the patterns begin with different bytes, apart from the slash and the opening of a
comment. Inside of comments a byte is a star or it is not. The state behind a first byte follows
from that, and with it the longest match at each offset.
-/

namespace TableParsing

namespace Expression

/-- Space, tab, carriage return, line feed and form feed. -/
def blanks : ByteSet := ⟨[(0x09, 0x0A), (0x0C, 0x0D), (0x20, 0x20)]⟩

def digits : ByteSet := ⟨[(0x30, 0x39)]⟩

def letters : ByteSet := ⟨[(0x41, 0x5A), (0x5F, 0x5F), (0x61, 0x7A)]⟩

def wordBytes : ByteSet := ⟨[(0x30, 0x39), (0x41, 0x5A), (0x5F, 0x5F), (0x61, 0x7A)]⟩

def plainBytes : ByteSet := ⟨[(0x00, 0x29), (0x2B, 0xFF)]⟩

def star : UInt8 := 0x2A

def slash : UInt8 := 0x2F

/-- The terminal that a byte is by itself. -/
def sign? (b : UInt8) : Option Lexeme :=
  if b = 0x2B then some .plus
  else if b = 0x2D then some .minus
  else if b = star then some .times
  else if b = slash then some .divide
  else if b = 0x28 then some .lparen
  else if b = 0x29 then some .rparen
  else none

inductive Kind where
  | blank
  | digit
  | letter
  | sign (t : Lexeme)
  | illegal
  deriving DecidableEq

def kind (b : UInt8) : Kind :=
  if blanks.contains b then .blank
  else if digits.contains b then .digit
  else if letters.contains b then .letter
  else
    match sign? b with
    | some t => .sign t
    | none => .illegal

def outside : Automaton where
  patterns := [.repetition (.bytes digits) 1 none,
    .seq (.bytes letters) (.repetition (.bytes wordBytes) 0 none), .bytes (.singleton 0x2B),
    .bytes (.singleton 0x2D), .bytes (.singleton star), .bytes (.singleton slash),
    .bytes (.singleton 0x28), .bytes (.singleton 0x29), .repetition (.bytes blanks) 1 none,
    .seq (.bytes (.singleton slash)) (.bytes (.singleton star))]

def inside : Automaton where
  patterns := [.seq (.bytes (.singleton star)) (.bytes (.singleton slash)),
    .repetition (.bytes plainBytes) 1 none, .bytes (.singleton star)]

def lexer : Lexer Lexeme Rule Mode := ⟨lexTables, #[outside, inside]⟩

theorem buildModes_patterns :
    Lexer.buildModes (Engine.compilerOf Automaton) 0 lexTables.patterns =
      .ok [outside, inside] := by
  decide +kernel

theorem lexer?_eq : lexer? = .ok lexer :=
  Lexer.ofTables_of_patterns rfl rfl buildModes_patterns

/-- A byte belongs to the set of its own kind only. -/
theorem contains_eq (b : UInt8) :
    blanks.contains b = decide (kind b = .blank) ∧ digits.contains b = decide (kind b = .digit) ∧
      letters.contains b = decide (kind b = .letter) ∧
      (ByteSet.singleton 0x2B).contains b = decide (kind b = .sign .plus) ∧
      (ByteSet.singleton 0x2D).contains b = decide (kind b = .sign .minus) ∧
      (ByteSet.singleton star).contains b = decide (kind b = .sign .times) ∧
      (ByteSet.singleton slash).contains b = decide (kind b = .sign .divide) ∧
      (ByteSet.singleton 0x28).contains b = decide (kind b = .sign .lparen) ∧
      (ByteSet.singleton 0x29).contains b = decide (kind b = .sign .rparen) := by
  revert b
  exact forall_byte (by decide +kernel)

/-- Only operators and parentheses are signs. -/
theorem sign_of_kind {b : UInt8} {t : Lexeme} (h : kind b = .sign t) :
    t ≠ .num ∧ t ≠ .ident ∧ t ≠ .finish := by
  have none : ∀ b, kind b ≠ .sign .num ∧ kind b ≠ .sign .ident ∧ kind b ≠ .sign .finish :=
    forall_byte (by decide +kernel)
  obtain ⟨num, ident, finish⟩ := none b
  refine ⟨?_, ?_, ?_⟩ <;> rintro rfl
  · exact num h
  · exact ident h
  · exact finish h

/-- What is left to match outside of comments behind a first byte of some kind. -/
def afterKind : Kind → Automaton.State
  | .digit => [(0, [.repetition (.bytes digits) 0 none])]
  | .letter => [(1, [.repetition (.bytes wordBytes) 0 none])]
  | .sign .plus => [(2, [.empty])]
  | .sign .minus => [(3, [.empty])]
  | .sign .times => [(4, [.empty])]
  | .sign .divide => [(5, [.empty]), (9, [.bytes (.singleton star)])]
  | .sign .lparen => [(6, [.empty])]
  | .sign .rparen => [(7, [.empty])]
  | .blank => [(8, [.repetition (.bytes blanks) 0 none])]
  | .sign _ | .illegal => []

theorem advance_outside (c : Context) (b : UInt8) :
    outside.start.advance c b = afterKind (kind b) := by
  obtain ⟨h1, h2, h3, h4, h5, h6, h7, h8, h9⟩ := contains_eq b
  simp only [Automaton.start, outside, List.zipIdx_cons, List.zipIdx_nil, List.map_cons,
    List.map_nil, Automaton.State.advance, List.filterMap_cons, List.filterMap_nil,
    List.flatMap_cons, List.flatMap_nil, List.append_nil, Regex.derivatives, Regex.owed,
    Regex.matchesEmpty, h1, h2, h3, h4, h5, h6, h7, h8, h9]
  generalize kind b = k
  cases k with
  | sign t => cases t <;> rfl
  | blank | digit | letter | illegal => rfl

theorem plain_contains_eq (b : UInt8) : plainBytes.contains b = !decide (b = star) := by
  revert b
  exact forall_byte (by decide +kernel)

theorem advance_inside (c : Context) (b : UInt8) :
    inside.start.advance c b =
      if b = star then [(0, [.bytes (.singleton slash)]), (2, [.empty])]
      else [(1, [.repetition (.bytes plainBytes) 0 none])] := by
  have plain := plain_contains_eq b
  have single : (ByteSet.singleton star).contains b = decide (b = star) := by
    rw [Bool.eq_iff_iff, ByteSet.contains_singleton_iff, decide_eq_true_eq]
  simp only [Automaton.start, inside, List.zipIdx_cons, List.zipIdx_nil, List.map_cons,
    List.map_nil, Automaton.State.advance, List.filterMap_cons, List.filterMap_nil,
    List.flatMap_cons, List.flatMap_nil, List.append_nil, Regex.derivatives, Regex.owed,
    Regex.matchesEmpty, plain, single]
  by_cases isStar : b = star
  · simp only [isStar]
    rfl
  · simp only [isStar]
    rfl

section Searches

variable {src : Source} {b : UInt8} {rest : List UInt8} {offset : Nat} {m : Match}

theorem takes_outside (finds : outside.Finds src.toList offset m) :
    lexer.Takes src .expr offset m :=
  ⟨outside, rfl, Automaton.refusal?_eq_none rfl rfl _, finds⟩

theorem takes_inside (finds : inside.Finds src.toList offset m) :
    lexer.Takes src .comment offset m :=
  ⟨inside, rfl, Automaton.refusal?_eq_none rfl rfl _, finds⟩

/-- Where a pattern goes on with a set of bytes, the whole run is taken. -/
theorem takes_run {set : ByteSet} {p : Nat} (remaining : src.toList.drop offset = b :: rest)
    (left : afterKind (kind b) = [(p, [.repetition (.bytes set) 0 none])]) :
    lexer.Takes src .expr offset
      ⟨p, (rest.takeWhile set.contains).length + 1, Nat.succ_pos _⟩ :=
  takes_outside (Automaton.finds_run rfl remaining ((advance_outside _ b).trans left))

theorem mem_afterSlash (k : Nat) (rs : List Regex) :
    (k, rs) ∈ afterKind (.sign .divide) ↔
      k = 5 ∧ rs = [.empty] ∨ k = 9 ∧ rs = [.bytes (.singleton star)] := by
  simp [afterKind]

/-- A sign is taken by itself, unless it is a slash in front of a star. -/
theorem takes_sign {t : Lexeme} (remaining : src.toList.drop offset = b :: rest)
    (sign : kind b = .sign t) (alone : ¬ (t = .divide ∧ rest.head? = some star)) :
    ∃ p, lexer.Takes src .expr offset ⟨p, 1, Nat.one_pos⟩ ∧
      lexAction .expr (ruleOf .expr p) = .emit t := by
  obtain ⟨read, next⟩ := getElem?_of_drop remaining
  have state := (advance_outside (Context.of src.toList offset) b).trans (congrArg afterKind sign)
  cases t with
  | plus => exact ⟨2, takes_outside (Automaton.finds_byte rfl read state), rfl⟩
  | minus => exact ⟨3, takes_outside (Automaton.finds_byte rfl read state), rfl⟩
  | times => exact ⟨4, takes_outside (Automaton.finds_byte rfl read state), rfl⟩
  | lparen => exact ⟨6, takes_outside (Automaton.finds_byte rfl read state), rfl⟩
  | rparen => exact ⟨7, takes_outside (Automaton.finds_byte rfl read state), rfl⟩
  | divide =>
      have other : src.toList[offset + 1]? ≠ some star := fun isStar =>
        alone ⟨rfl, next.symm.trans isStar⟩
      exact ⟨5, takes_outside (Automaton.finds_single rfl read state mem_afterSlash other), rfl⟩
  | num => exact absurd rfl (sign_of_kind sign).1
  | ident => exact absurd rfl (sign_of_kind sign).2.1
  | finish => exact absurd rfl (sign_of_kind sign).2.2

/-- A slash in front of a star opens a comment. -/
theorem takes_opening (remaining : src.toList.drop offset = b :: rest)
    (sign : kind b = .sign .divide) (opens : rest.head? = some star) :
    lexer.Takes src .expr offset ⟨9, 2, Nat.two_pos⟩ := by
  obtain ⟨read, next⟩ := getElem?_of_drop remaining
  have state := (advance_outside (Context.of src.toList offset) b).trans (congrArg afterKind sign)
  exact takes_outside (Automaton.finds_pair rfl read state mem_afterSlash (next.trans opens))

/-- In front of an illegal byte nothing is found. -/
theorem unseen_illegal (read : src.toList[offset]? = some b) (illegal : kind b = .illegal) :
    ∀ j p, offset < j → ¬ outside.Sees src.toList offset j p :=
  Automaton.unseen_of_advance rfl read
    ((advance_outside _ b).trans (congrArg afterKind illegal))

/-- Inside of comments a run without stars is taken as a whole. -/
theorem takes_plain (remaining : src.toList.drop offset = b :: rest) (plain : b ≠ star) :
    lexer.Takes src .comment offset
      ⟨1, (rest.takeWhile plainBytes.contains).length + 1, Nat.succ_pos _⟩ :=
  takes_inside (Automaton.finds_run rfl remaining ((advance_inside _ b).trans (if_neg plain)))

/-- A star is taken together with a slash behind it, and otherwise by itself. -/
theorem takes_star (remaining : src.toList.drop offset = star :: rest) :
    if rest.head? = some slash then lexer.Takes src .comment offset ⟨0, 2, Nat.two_pos⟩
    else lexer.Takes src .comment offset ⟨2, 1, Nat.one_pos⟩ := by
  obtain ⟨read, next⟩ := getElem?_of_drop remaining
  have state := (advance_inside (Context.of src.toList offset) star).trans (if_pos rfl)
  have left (k : Nat) (rs : List Regex) :
      (k, rs) ∈ [(0, [Regex.bytes (.singleton slash)]), (2, [.empty])] ↔
        k = 2 ∧ rs = [.empty] ∨ k = 0 ∧ rs = [.bytes (.singleton slash)] := by
    simp [or_comm]
  split
  · next closes =>
      exact takes_inside (Automaton.finds_pair rfl read state left (next.trans closes))
  · next continues =>
      have other : src.toList[offset + 1]? ≠ some slash := fun closes =>
        continues (next.symm.trans closes)
      exact takes_inside (Automaton.finds_single rfl read state left other)

end Searches

end Expression

end TableParsing
