import TableParsing.Regex.Basic
import TableParsing.Regex.RangeSet

/-!
# Code points as byte sequences

A set of code points is described, byte by byte, by an expression that matches exactly the UTF-8
encodings of its members. The continuation bytes of an encoding are the digits of the code point in
base 64, so a range of code points with encodings of one length splits by its leading digit.
Surrogates have no encoding.
-/

namespace TableParsing

namespace Utf8Range

def byteRange (low high : Nat) : Regex := .bytes ⟨[(low.toUInt8, high.toUInt8)]⟩

/-- Either of two expressions; nothing is kept of one that matches nothing. -/
def either : Regex → Regex → Regex
  | .nothing, r => r
  | r, .nothing => r
  | r, s => .alt r s

/-- Numbers from `low` to `high`, written as a leading digit of weight `weight`, which is stored
above `base`, and further digits as `rest` describes them. -/
def leading (base weight : Nat) (rest : Nat → Nat → Regex) (low high : Nat) : Regex :=
  let first := low / weight
  let last := high / weight
  if low % weight = 0 ∧ high % weight = weight - 1 then
    .seq (byteRange (base + first) (base + last)) (rest 0 (weight - 1))
  else if first = last then
    .seq (byteRange (base + first) (base + first)) (rest (low % weight) (high % weight))
  else
    either (.seq (byteRange (base + first) (base + first)) (rest (low % weight) (weight - 1)))
      (either
        (if first + 1 < last then
          .seq (byteRange (base + first + 1) (base + last - 1)) (rest 0 (weight - 1))
        else .nothing)
        (.seq (byteRange (base + last) (base + last)) (rest 0 (high % weight))))

/-- The weight of a digit in base 64 that further digits follow. -/
def weight : Nat → Nat
  | 0 => 1
  | n + 1 => 64 * weight n

/-- Numbers from `low` to `high` as the given number of continuation bytes. -/
def continuation : Nat → Nat → Nat → Regex
  | 0, _, _ => .empty
  | 1, low, high => byteRange (0x80 + low) (0x80 + high)
  | n + 1, low, high => leading 0x80 (weight n) (continuation n) low high

/-- The encodings of the code points of a set within one block of equally long encodings. `mark` is
the value of the bits that tell the length. -/
def block (mark tail low high : Nat) (s : RangeSet) : Regex :=
  (s.within low high).foldr
    (fun r acc => either (leading mark (weight tail) (continuation tail) r.1 r.2) acc)
    .nothing

/-- The encodings of the code points of a set that are single bytes. -/
def ascii (s : RangeSet) : Regex :=
  match s.within 0 0x7F with
  | [] => .nothing
  | ranges => .bytes ⟨ranges.map fun r => (r.1.toUInt8, r.2.toUInt8)⟩

/-- The UTF-8 encodings of the code points of a set. -/
def encodings (s : RangeSet) : Regex :=
  either (ascii s) (either (block 0xC0 1 0x80 0x7FF s)
    (either (block 0xE0 2 0x800 0xD7FF s)
      (either (block 0xE0 2 0xE000 0xFFFF s) (block 0xF0 3 0x10000 0x10FFFF s))))

end Utf8Range

end TableParsing
