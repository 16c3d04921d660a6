/-!
# Reading bytes as UTF-8

Bytes are read one at a time by a machine that remembers the character it is in the middle of: the
bits read so far, the number of continuation bytes still owed, and the range that the next one must
lie in. A byte outside that range ends the unfinished character as one invalid part and is then read
again from the start; a byte that starts no character is an invalid part of its own. So each invalid
part is a longest sequence that could still have become a character.

Strict and lossy reading are two views of the same parts.
-/

namespace TableParsing

namespace Utf8

/-- A character whose first bytes have been read. The next byte must lie between `low` and `high`,
which rules out overlong forms, surrogates and numbers past the last code point. -/
structure Pending where
  bits : Nat
  owed : Nat
  low : UInt8
  high : UInt8

inductive Reading where
  /-- The byte completes a character. -/
  | character (c : Char)
  /-- The byte continues a character. -/
  | pending (p : Pending)
  /-- No character goes on with this byte. -/
  | refused

/-- A continuation byte of any kind. -/
def isContinuation (b : UInt8) : Bool := 0x80 ≤ b && b ≤ 0xBF

def first (b : UInt8) : Reading :=
  if b < 0x80 then .character (Char.ofNat b.toNat)
  else if b < 0xC2 then .refused
  else if b < 0xE0 then .pending ⟨b.toNat - 0xC0, 1, 0x80, 0xBF⟩
  else if b < 0xF0 then
    .pending ⟨b.toNat - 0xE0, 2, if b = 0xE0 then 0xA0 else 0x80, if b = 0xED then 0x9F else 0xBF⟩
  else if b < 0xF5 then
    .pending ⟨b.toNat - 0xF0, 3, if b = 0xF0 then 0x90 else 0x80, if b = 0xF4 then 0x8F else 0xBF⟩
  else .refused

def Pending.next (p : Pending) (b : UInt8) : Reading :=
  if p.low ≤ b ∧ b ≤ p.high then
    let bits := p.bits * 64 + (b.toNat - 0x80)
    if p.owed ≤ 1 then .character (Char.ofNat bits) else .pending ⟨bits, p.owed - 1, 0x80, 0xBF⟩
  else .refused

/-- A maximal part of a byte sequence: a character, or bytes that are none. -/
abbrev Part := Option Char

/-- Read a byte where no character is pending, before the parts read so far (latest first). -/
def start (b : UInt8) (parts : List Part) : Option Pending × List Part :=
  match first b with
  | .character c => (none, some c :: parts)
  | .pending p => (some p, parts)
  | .refused => (none, none :: parts)

/-- Read the remaining bytes, given the pending character and the parts so far (latest first). -/
def readFrom : Option Pending → List Part → List UInt8 → List Part
  | none, parts, [] => parts.reverse
  | some _, parts, [] => (none :: parts).reverse
  | none, parts, b :: rest =>
    let (p, parts) := start b parts
    readFrom p parts rest
  | some p, parts, b :: rest =>
    match p.next b with
    | .character c => readFrom none (some c :: parts) rest
    | .pending q => readFrom (some q) parts rest
    | .refused =>
      let (q, parts) := start b (none :: parts)
      readFrom q parts rest

/-- The characters and invalid parts of a byte sequence, in order. -/
def parts (bytes : List UInt8) : List Part := readFrom none [] bytes

/-- The text of a byte sequence, absent if some part of it is no character. -/
def decode? (bytes : List UInt8) : Option String :=
  ((parts bytes).mapM id).map String.ofList

def replacement : Char := '\uFFFD'

/-- The text of a byte sequence with every invalid part replaced. -/
def decodeLossy (bytes : List UInt8) : String :=
  String.ofList ((parts bytes).map (Option.getD · replacement))

/-- An offset into text is a character boundary if it is the end or no continuation byte
is there. -/
def isBoundary (bytes : Array UInt8) (offset : Nat) : Bool :=
  match bytes[offset]? with
  | some b => !isContinuation b
  | none => offset == bytes.size

end Utf8

end TableParsing
