import TableParsing.Lexing.Engine
import TableParsing.Regex.Derivative

/-!
# Automata of lexer modes

The automaton of a mode runs all patterns of the mode at once, from one offset and with the end left
open. What is alive during a search are, for every pattern that can still match, the expressions
that describe what may follow. Whether a pattern matches up to an offset can depend on the byte
behind it, so a state holds the patterns that match in front of the byte that was read last.

A search looks at the byte in front of it before it begins, and may be refused because of it.
-/

namespace TableParsing

/-- The patterns of one lexer mode, in order of precedence. An automaton may have been made without
support for searches that begin at a given offset, and it may give up on certain bytes. -/
structure Automaton where
  patterns : List Regex
  anchored : Bool := true
  quits : ByteSet := .empty
  deriving DecidableEq

namespace Automaton

/-- A byte that no search begins behind. The bytes given up on are asked for its low seven bits, so
an ASCII byte among them also stands for the byte 128 above it. -/
def bars (a : Automaton) (b : UInt8) : Bool := a.quits.contains (b &&& 0x7F)

/-- Why a search cannot begin behind the given byte, if it cannot. The byte is looked at first. -/
def refusal? (a : Automaton) (before : Option UInt8) : Option SearchRefusal :=
  match before.filter a.bars with
  | some b => some (.behind b)
  | none => if a.anchored then none else some .unanchored

/-- The patterns that are alive, by increasing index, each with the expressions for what
may follow. -/
abbrev State := List (Nat × List Regex)

/-- Before the first byte, every pattern is alive. -/
def start (a : Automaton) : State := a.patterns.zipIdx.map fun (r, index) => (index, [r])

namespace State

/-- The patterns that match up to an offset with the given neighbours, by increasing index. -/
def accepted (c : Context) (s : State) : List Nat :=
  (s.filter fun entry => entry.2.any (·.matchesEmpty c)).map Prod.fst

/-- Read one byte at an offset with the given neighbours. Patterns without a derivative
are dropped. -/
def advance (c : Context) (b : UInt8) (s : State) : State :=
  s.filterMap fun (index, rs) =>
    match (rs.flatMap (·.derivatives c b)).eraseDups with
    | [] => none
    | ds => some (index, ds)

end State

inductive Scan where
  /-- What is alive, the byte that was read last, and the patterns that match in front of it. -/
  | reading (alive : State) (before : Option UInt8) (noticed : List Nat)
  /-- The automaton has given up. -/
  | quit

/-- A search behind a byte has noticed nothing yet. -/
def begin (a : Automaton) (before : Option UInt8) : Scan := .reading a.start before []

def tryBegin (a : Automaton) (before : Option UInt8) : Except SearchRefusal Scan :=
  match a.refusal? before with
  | some refusal => .error refusal
  | none => .ok (a.begin before)

namespace Scan

/-- Read a byte. An automaton that gives up on it does so before it looks at what matches. -/
def next (a : Automaton) : Scan → UInt8 → Scan
  | .reading alive before _, b =>
    if a.quits.contains b then .quit
    else .reading (alive.advance ⟨before, some b⟩ b) (some b) (alive.accepted ⟨before, some b⟩)
  | .quit, _ => .quit

def finish : Scan → Scan
  | .reading alive before _ => .reading [] none (alive.accepted ⟨before, none⟩)
  | .quit => .quit

def noticed : Scan → List Nat
  | .reading _ _ patterns => patterns
  | .quit => []

def isMatch (s : Scan) : Bool := !s.noticed.isEmpty

/-- Nothing is alive, and nothing has been noticed just now. -/
def isDead : Scan → Bool
  | .reading alive _ noticed => alive.isEmpty && noticed.isEmpty
  | .quit => false

def isQuit : Scan → Bool
  | .reading .. => false
  | .quit => true

end Scan

instance : Machine Automaton Scan where
  start := tryBegin
  next := Scan.next
  finish _ := Scan.finish
  isSpecial _ s := s.isMatch || s.isDead || s.isQuit
  isMatch _ := Scan.isMatch
  isDead _ := Scan.isDead
  isQuit _ := Scan.isQuit
  listed _ s n := s.noticed.getD n 0

end Automaton

end TableParsing
