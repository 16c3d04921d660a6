import TableParsing.Regex.Utf8Range

/-!
# Patterns

A pattern is what a regular expression means once its notation has been read: flags have been
applied and classes worked out. Items are either single bytes or whole code points. Turning a
pattern into a regular expression over bytes writes code points as encodings. It fails only for
conditions on words of Unicode characters, which two neighbouring bytes cannot decide unless both
are known to be ASCII.
-/

namespace TableParsing

/-- The meaning of a pattern's notation. -/
inductive Pattern where
  | empty
  /-- One byte out of a set of numbers below 256. -/
  | byte (set : RangeSet)
  /-- One code point out of a set, in its UTF-8 encoding. -/
  | codePoint (set : RangeSet)
  | assertion (condition : Assertion)
  /-- A condition on words made of Unicode characters. -/
  | unicodeWord (edge : WordEdge)
  | seq (first second : Pattern)
  | alt (left right : Pattern)
  /-- At least `least` copies and up to `extra` more; without `extra`, any number more. -/
  | repetition (body : Pattern) (least : Nat) (extra : Option Nat)

namespace Pattern

/-- The regular expression over bytes that a pattern stands for. No copies of a pattern are nothing
to match, whatever the pattern is. `onlyAscii` says that conditions are only ever asked for between
ASCII characters. -/
def toRegex? (onlyAscii : Bool) : Pattern → Option Regex
  | .empty => some .empty
  | .byte set => some (.bytes ⟨set.ranges.map fun r => (r.1.toUInt8, r.2.toUInt8)⟩)
  | .codePoint set => some (Utf8Range.encodings set)
  | .assertion condition => some (.assertion condition)
  | .unicodeWord edge => if onlyAscii then some (.assertion (.word edge)) else none
  | .seq p q =>
    match p.toRegex? onlyAscii, q.toRegex? onlyAscii with
    | some r, some s => some (r.followedBy s)
    | _, _ => none
  | .alt p q =>
    match p.toRegex? onlyAscii, q.toRegex? onlyAscii with
    | some r, some s => some (.alt r s)
    | _, _ => none
  | .repetition _ 0 (some 0) => some .empty
  | .repetition p least extra => (p.toRegex? onlyAscii).map fun r => .repetition r least extra

end Pattern

end TableParsing
