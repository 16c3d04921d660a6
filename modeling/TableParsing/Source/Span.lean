/-!
# Spans of source text

A source is a sequence of bytes, not assumed to be text. A span is a half-open range of offsets into
it. Spans copy nothing: what they cover is read back from the source, and only if they fit.
-/

namespace TableParsing

/-- Source text as the bytes that a lexer reads. -/
abbrev Source := Array UInt8

namespace Source

/-- The source that holds the UTF-8 encoding of a text. -/
def ofString (text : String) : Source := text.toUTF8.data

end Source

/-- The half-open range of offsets from `start` to `stop`. The two may be in either order; a range
with `stop < start` fits no source. -/
structure Span where
  start : Nat
  stop : Nat
  deriving DecidableEq, Inhabited

namespace Span

def empty (offset : Nat) : Span := ⟨offset, offset⟩

def isEmpty (s : Span) : Bool := s.start == s.stop

def length (s : Span) : Nat := s.stop - s.start

/-- The length of a span, absent if its ends are in the wrong order. -/
def length? (s : Span) : Option Nat :=
  if s.start ≤ s.stop then some s.length else none

/-- The least span that reaches from the earlier start to the later stop. -/
def merge (s t : Span) : Span := ⟨min s.start t.start, max s.stop t.stop⟩

/-- Spans are ordered by their start, and those with one start by their stop. -/
instance : Ord Span where
  compare s t := (compare s.start t.start).then (compare s.stop t.stop)

def Fits (s : Span) (src : Source) : Prop := s.start ≤ s.stop ∧ s.stop ≤ src.size

instance (s : Span) (src : Source) : Decidable (s.Fits src) :=
  inferInstanceAs (Decidable (_ ∧ _))

/-- The bytes that a span covers, absent if it does not fit the source. -/
def slice? (s : Span) (src : Source) : Option (Array UInt8) :=
  if s.Fits src then some (src.extract s.start s.stop) else none

instance : ToString Span where
  toString s := toString s.start ++ ".." ++ toString s.stop

theorem slice?_eq_none_iff {s : Span} {src : Source} : s.slice? src = none ↔ ¬ s.Fits src := by
  simp [slice?]

theorem toList_of_slice? {s : Span} {src bytes : Array UInt8} (h : s.slice? src = some bytes) :
    bytes.toList = (src.toList.drop s.start).take s.length := by
  unfold slice? at h
  split at h
  · obtain rfl := Option.some.inj h
    simp [length, List.extract_eq_take_drop]
  · cases h

end Span

end TableParsing
