/-!
# Engines for regular expressions

A lexer leaves patterns to an engine for regular expressions. The engine reads the patterns of a
mode, makes one automaton that runs all of them at once, and runs it byte by byte. An automaton
notices a match one byte late: on reading the byte behind it, or on learning that there is none.

What an engine does in any of these steps is not said here. A lexer is given one, and the search for
the longest match uses nothing of it but the steps.
-/

namespace TableParsing

/-- A match of a pattern from the offset of a search: the pattern's index and a positive length. -/
@[ext]
structure Match where
  pattern : Nat
  length : Nat
  pos : 0 < length

/-- A match of the given length, unless it is empty. -/
def Match.ofPair? : Nat × Nat → Option Match
  | (pattern, length) => if pos : 0 < length then some ⟨pattern, length, pos⟩ else none

inductive SearchRefusal where
  /-- The automaton was made without support for searches that begin at a given offset. -/
  | unanchored
  /-- The given byte is in front of the search. -/
  | behind (byte : UInt8)
  deriving DecidableEq

/-- How an engine makes automata `A`: it reads patterns `X`, puts those of a mode together as a
nondeterministic automaton `N`, and makes that one deterministic. Each step may fail with a
message. -/
structure Compiler (X N A : Type) where
  read : String → Except String X
  combine : List X → Except String N
  build : N → Except String A

/-- How an engine runs automata `A`, which have states `S`. -/
class Machine (A : Type) (S : outParam Type) where
  /-- The state in which a search begins, given the byte in front of it. -/
  start : A → Option UInt8 → Except SearchRefusal S
  /-- The state after a byte. -/
  next : A → S → UInt8 → S
  /-- The state after the end of the input. -/
  finish : A → S → S
  /-- Whether a state is worth a closer look. -/
  isSpecial : A → S → Bool
  isMatch : A → S → Bool
  isDead : A → S → Bool
  /-- Whether the automaton has given up on a byte. -/
  isQuit : A → S → Bool
  /-- The patterns of a match state, by number. -/
  listed : A → S → Nat → Nat

/-- An engine makes automata and runs them. -/
class Engine (A : Type) (X N S : outParam Type) extends Machine A S where
  compiler : Compiler X N A

abbrev Engine.compilerOf (A : Type) {X N S : Type} [Engine A X N S] : Compiler X N A :=
  Engine.compiler

namespace Machine

variable {A S : Type} [Machine A S]

/-- Read the remaining bytes and learn that they end. `last` is the latest match so far, which may
be empty, and `length` the number of bytes read. Nothing more is read once the automaton is dead or
has given up. -/
def scan (a : A) (s : S) (last : Option (Nat × Nat)) (length : Nat) :
    List UInt8 → Option (Nat × Nat)
  | [] =>
    let s := finish a s
    if isMatch a s then some (listed a s 0, length) else last
  | b :: rest =>
    let s := next a s b
    if isSpecial a s then
      if isMatch a s then scan a s (some (listed a s 0, length)) (length + 1) rest
      else if isDead a s || isQuit a s then last
      else scan a s last (length + 1) rest
    else scan a s last (length + 1) rest

/-- The longest match that begins with the given bytes, if it is not empty. -/
def longestMatch? (a : A) (s : S) (bytes : List UInt8) : Option Match :=
  (scan a s none 0 bytes).bind Match.ofPair?

end Machine

end TableParsing
