import TableParsing.Automaton.Basic

/-!
# Stored automata

Automata can be stored as bytes and loaded instead of being made from patterns. A stored automaton
begins with a label and tells its own end, so it can be read in front of anything. Several are
stored one after the other, each at an address that is a multiple of four, with zeros in between.

Where automata are placed does not depend on how each of them is stored, so an image says how its
automata are.
-/

namespace TableParsing

structure Encoding (α : Type) where
  /-- The bytes of a value. -/
  encode : α → List UInt8
  /-- Read the value that bytes begin with, and return it with the number of bytes it takes. -/
  decode? : List UInt8 → Option (α × Nat)

namespace ByteSet

/-- The ranges of a set, each behind a one, with a zero at the end. -/
def encodeRanges : List (UInt8 × UInt8) → List UInt8
  | [] => [0]
  | r :: rs => 1 :: r.1 :: r.2 :: encodeRanges rs

/-- Read ranges up to the zero behind the last. -/
def decodeRanges : List UInt8 → Option (List (UInt8 × UInt8) × List UInt8)
  | tag :: rest =>
    if tag = 0 then some ([], rest)
    else if tag = 1 then
      match rest with
      | low :: high :: rest => (decodeRanges rest).map fun (rs, rest) => ((low, high) :: rs, rest)
      | _ => none
    else none
  | [] => none

def encode (s : ByteSet) : List UInt8 := encodeRanges s.ranges

def decode? (bytes : List UInt8) : Option (ByteSet × List UInt8) :=
  (decodeRanges bytes).map fun (rs, rest) => (⟨rs⟩, rest)

end ByteSet

namespace Numeral

/-- The digits of a number in base 256, the lowest first, each behind a one, with a zero at
the end. -/
def encode (n : Nat) : List UInt8 :=
  if n = 0 then [0] else 1 :: (n % 256).toUInt8 :: encode (n / 256)

/-- Read a number up to the zero behind its last digit. -/
def decode? : List UInt8 → Option (Nat × List UInt8)
  | tag :: rest =>
    if tag = 0 then some (0, rest)
    else if tag = 1 then
      match rest with
      | digit :: rest => (decode? rest).map fun (n, rest) => (digit.toNat + 256 * n, rest)
      | [] => none
    else none
  | [] => none

/-- A number behind a one, or a zero if there is none. -/
def encodeOption : Option Nat → List UInt8
  | none => [0]
  | some n => 1 :: encode n

def decodeOption? : List UInt8 → Option (Option Nat × List UInt8)
  | tag :: rest =>
    if tag = 0 then some (none, rest)
    else if tag = 1 then (decode? rest).map fun (n, rest) => (some n, rest)
    else none
  | [] => none

end Numeral

namespace Assertion

def code : Assertion → UInt8
  | .textStart => 0
  | .textEnd => 1
  | .lineStart => 2
  | .lineEnd => 3
  | .word .boundary => 4
  | .word .interior => 5
  | .word .start => 6
  | .word .stop => 7
  | .word .startHalf => 8
  | .word .stopHalf => 9

/-- All conditions, in the order of their numbers. -/
def all : List Assertion :=
  [.textStart, .textEnd, .lineStart, .lineEnd, .word .boundary, .word .interior, .word .start,
    .word .stop, .word .startHalf, .word .stopHalf]

def ofCode? (n : UInt8) : Option Assertion := all[n.toNat]?

end Assertion

namespace Regex

/-- An expression in prefix order, a tag before the parts of every node. -/
def encode : Regex → List UInt8
  | .nothing => [0]
  | .empty => [1]
  | .bytes set => 2 :: set.encode
  | .assertion condition => [3, condition.code]
  | .seq r s => 4 :: (r.encode ++ s.encode)
  | .alt r s => 5 :: (r.encode ++ s.encode)
  | .repetition r least extra =>
    6 :: (Numeral.encode least ++ (Numeral.encodeOption extra ++ r.encode))

/-- Read an expression, at most as deep as the budget. -/
def decode? : Nat → List UInt8 → Option (Regex × List UInt8)
  | 0, _ => none
  | _, [] => none
  | budget + 1, tag :: rest =>
    if tag = 0 then some (.nothing, rest)
    else if tag = 1 then some (.empty, rest)
    else if tag = 2 then (ByteSet.decode? rest).map fun (set, rest) => (.bytes set, rest)
    else if tag = 3 then
      match rest with
      | code :: rest => (Assertion.ofCode? code).map fun condition => (.assertion condition, rest)
      | [] => none
    else if tag = 4 then
      match decode? budget rest with
      | some (r, rest) => (decode? budget rest).map fun (s, rest) => (.seq r s, rest)
      | none => none
    else if tag = 5 then
      match decode? budget rest with
      | some (r, rest) => (decode? budget rest).map fun (s, rest) => (.alt r s, rest)
      | none => none
    else if tag = 6 then
      match Numeral.decode? rest with
      | none => none
      | some (least, rest) =>
        match Numeral.decodeOption? rest with
        | none => none
        | some (extra, rest) =>
          (decode? budget rest).map fun (r, rest) => (.repetition r least extra, rest)
    else none

/-- Expressions, each behind a one, with a zero at the end. -/
def encodeAll : List Regex → List UInt8
  | [] => [0]
  | r :: rs => 1 :: (r.encode ++ encodeAll rs)

/-- Read expressions up to the zero behind the last. -/
def decodeAll? : Nat → List UInt8 → Option (List Regex × List UInt8)
  | 0, _ => none
  | _, [] => none
  | budget + 1, tag :: rest =>
    if tag = 0 then some ([], rest)
    else if tag = 1 then
      match decode? budget rest with
      | some (r, rest) => (decodeAll? budget rest).map fun (rs, rest) => (r :: rs, rest)
      | none => none
    else none

end Regex

namespace Automaton

/-- The bytes that every stored automaton begins with. -/
def label : List UInt8 := [0x61, 0x75, 0x74, 0x6F]

/-- An automaton as bytes: the label, whether searches can begin at a given offset, the bytes that
it gives up on, and its patterns. -/
def encode (a : Automaton) : List UInt8 :=
  label ++ (if a.anchored then 1 else 0) :: (a.quits.encode ++ Regex.encodeAll a.patterns)

def decodeBody? : List UInt8 → Option (Automaton × List UInt8)
  | flag :: rest =>
    if flag ≤ 1 then
      match ByteSet.decode? rest with
      | some (quits, rest) =>
        (Regex.decodeAll? (rest.length + 1) rest).map fun (patterns, rest) =>
          ({ patterns, anchored := flag == 1, quits }, rest)
      | none => none
    else none
  | [] => none

def decode? (bytes : List UInt8) : Option (Automaton × List UInt8) :=
  if label.isPrefixOf bytes then decodeBody? (bytes.drop label.length) else none

def encoding : Encoding Automaton where
  encode := encode
  decode? bytes := (decode? bytes).map fun (a, rest) => (a, bytes.length - rest.length)

end Automaton

/-- Bytes with the address of the first of them, and how automata are stored in them. -/
structure Image (A : Type := Automaton) where
  address : Nat
  bytes : List UInt8
  encoding : Encoding A

namespace Image

inductive Fault where
  /-- An automaton does not begin at a multiple of four. -/
  | misaligned
  /-- The bytes at the place of an automaton are none, or not all of it. -/
  | malformed
  deriving DecidableEq

def Fault.message : Fault → String
  | .misaligned => "an automaton does not begin at a multiple of four"
  | .malformed => "an automaton is missing or cut off"

/-- The least multiple of four that is not below a number. -/
def roundUp (n : Nat) : Nat := (n + 3) / 4 * 4

variable {A : Type}

/-- The bytes of an automaton, followed by zeros up to a multiple of four. -/
def padded (encoding : Encoding A) (a : A) : List UInt8 :=
  let bytes := encoding.encode a
  bytes ++ List.replicate (roundUp bytes.length - bytes.length) 0

/-- Automata one after the other, each followed by zeros up to a multiple of four. -/
def encodeAll (encoding : Encoding A) (as : List A) : List UInt8 :=
  as.flatMap (padded encoding)

/-- The automata as an image that begins at a multiple of four. -/
def ofAutomata (as : List Automaton) : Image where
  address := 0
  bytes := encodeAll Automaton.encoding as
  encoding := Automaton.encoding

/-- Load a number of automata, the first of them from an offset. Every other begins at the first
multiple of four behind the one before it. Beyond the end of the image there are no bytes, and what
follows the last automaton does not matter. -/
def loadFrom (image : Image A) : Nat → Nat → Except Fault (List A)
  | 0, _ => .ok []
  | count + 1, offset =>
    if (image.address + offset) % 4 ≠ 0 then .error .misaligned
    else
      match image.encoding.decode? (image.bytes.drop offset) with
      | none => .error .malformed
      | some (a, length) =>
        match image.loadFrom count (roundUp (offset + length)) with
        | .ok as => .ok (a :: as)
        | .error fault => .error fault

def load (image : Image A) (count : Nat) : Except Fault (List A) := image.loadFrom count 0

end Image

end TableParsing
