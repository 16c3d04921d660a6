import TableParsing.Source.Span

/-!
# Line and column of an offset

Diagnostics for people name a line and a column, both counted from zero. The line is the number of
newlines before the offset; the column is the number of bytes since the last of them.
-/

namespace TableParsing

/-- A line and a byte column within it, both counted from zero. -/
structure Position where
  line : Nat
  column : Nat
  deriving DecidableEq, Inhabited

namespace Position

def newline : UInt8 := 10

/-- The offset of the last newline before an offset, searched backwards. -/
def lastNewline? (src : Source) : Nat → Option Nat
  | 0 => none
  | n + 1 => if src[n]? = some newline then some n else lastNewline? src n

/-- The position of an offset. Offsets past the end have the position of the end. -/
def locate (src : Source) (offset : Nat) : Position :=
  let offset := min offset src.size
  { line := (src.extract 0 offset).toList.count newline
    column :=
      match lastNewline? src offset with
      | some last => offset - last - 1
      | none => offset }

/-- Positions are ordered by line, and those of one line by column. -/
instance : Ord Position where
  compare p q := (compare p.line q.line).then (compare p.column q.column)

instance : ToString Position where
  toString p := toString p.line ++ ":" ++ toString p.column

end Position

end TableParsing
