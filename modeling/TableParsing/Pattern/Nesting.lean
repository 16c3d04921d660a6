/-!
# Nesting of patterns

Notation that nests too deeply is refused, so that a pattern can be worked on by recursion. A group,
a repetition, a bracketed class and an operation on classes are each one level deeper than what they
hold. So are two or more parts in a row: items of a sequence, alternatives, and members of a class.
A part on its own adds no level.
-/

namespace TableParsing

namespace Pattern

namespace Nesting

/-- The greatest number of levels that a pattern may have. -/
def limit : Nat := 250

/-- The levels of parts in a row, given the levels of each. -/
def ofParts : List Nat → Nat
  | [] => 0
  | [depth] => depth
  | depths => 1 + depths.foldl max 0

end Nesting

end Pattern

end TableParsing
