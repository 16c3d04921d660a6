/-!
# Regular expressions over bytes

A regular expression describes ranges of offsets in a byte sequence. Besides reading bytes it can
assert something about an offset: that the text or a line begins or ends there, or how word
characters lie on its two sides. Assertions look at the whole sequence, not only at the part that is
matched.
-/

namespace TableParsing

/-- A set of bytes, as a list of inclusive ranges. -/
structure ByteSet where
  ranges : List (UInt8 × UInt8)
  deriving DecidableEq

namespace ByteSet

def contains (s : ByteSet) (b : UInt8) : Bool :=
  s.ranges.any fun r => r.1 ≤ b && b ≤ r.2

def empty : ByteSet := ⟨[]⟩

/-- Every byte beyond ASCII is in a set. -/
def coversNonAscii (s : ByteSet) : Bool := (List.range' 128 128).all fun n => s.contains n.toUInt8

def singleton (b : UInt8) : ByteSet := ⟨[(b, b)]⟩

theorem contains_singleton_iff {b c : UInt8} : (singleton b).contains c = true ↔ c = b := by
  simp only [contains, singleton, List.any_cons, List.any_nil, Bool.or_false, Bool.and_eq_true,
    decide_eq_true_eq]
  constructor
  · rintro ⟨low, high⟩
    exact UInt8.le_antisymm high low
  · rintro rfl
    exact ⟨UInt8.le_refl _, UInt8.le_refl _⟩

end ByteSet

/-- The two bytes beside an offset; one is missing at either end of the text. -/
structure Context where
  before : Option UInt8
  after : Option UInt8

namespace Context

def of (src : List UInt8) (offset : Nat) : Context :=
  { before := if offset = 0 then none else src[offset - 1]?, after := src[offset]? }

end Context

/-- Word characters are the ASCII letters and digits and the underscore. -/
def isWordByte (b : UInt8) : Bool :=
  (0x30 ≤ b && b ≤ 0x39) || (0x41 ≤ b && b ≤ 0x5A) || b == 0x5F || (0x61 ≤ b && b ≤ 0x7A)

/-- A relation between the characters on the two sides of an offset, as to whether they belong to a
word. -/
inductive WordEdge where
  | boundary
  | interior
  | start
  | stop
  | startHalf
  | stopHalf
  deriving DecidableEq

namespace WordEdge

/-- Whether the relation holds, given whether there is a word character before and after. -/
def holds (e : WordEdge) (before after : Bool) : Bool :=
  match e with
  | .boundary => before != after
  | .interior => before == after
  | .start => !before && after
  | .stop => before && !after
  | .startHalf => !before
  | .stopHalf => !after

end WordEdge

inductive Assertion where
  | textStart
  | textEnd
  | lineStart
  | lineEnd
  | word (edge : WordEdge)
  deriving DecidableEq

namespace Assertion

def lineFeed : UInt8 := 10

def holds (c : Context) : Assertion → Bool
  | .textStart => c.before.isNone
  | .textEnd => c.after.isNone
  | .lineStart => c.before.all (· == lineFeed)
  | .lineEnd => c.after.all (· == lineFeed)
  | .word edge => edge.holds (c.before.any isWordByte) (c.after.any isWordByte)

end Assertion

inductive Regex where
  | nothing
  | empty
  | bytes (set : ByteSet)
  | assertion (condition : Assertion)
  | seq (first second : Regex)
  | alt (left right : Regex)
  /-- At least `least` copies and up to `extra` more; without `extra`, any number more. -/
  | repetition (body : Regex) (least : Nat) (extra : Option Nat)
  deriving DecidableEq

namespace Regex

/-- One expression after another. Nothing is kept of an empty first expression. -/
def followedBy (r s : Regex) : Regex :=
  match r with
  | .empty => s
  | r => .seq r s

/-- `Matches src r i j` says that `r` describes the bytes of `src` from offset `i` up to `j`. -/
inductive Matches (src : List UInt8) : Regex → Nat → Nat → Prop where
  | empty {i : Nat} : Matches src .empty i i
  | bytes {set : ByteSet} {i : Nat} {b : UInt8} (read : src[i]? = some b)
      (member : set.contains b) : Matches src (.bytes set) i (i + 1)
  | assertion {condition : Assertion} {i : Nat} (holds : condition.holds (Context.of src i)) :
      Matches src (.assertion condition) i i
  | seq {r s : Regex} {i j k : Nat} (first : Matches src r i j) (second : Matches src s j k) :
      Matches src (.seq r s) i k
  | altLeft {r s : Regex} {i j : Nat} (left : Matches src r i j) : Matches src (.alt r s) i j
  | altRight {r s : Regex} {i j : Nat} (right : Matches src s i j) : Matches src (.alt r s) i j
  | enough {r : Regex} {extra : Option Nat} {i : Nat} : Matches src (.repetition r 0 extra) i i
  | required {r : Regex} {n : Nat} {extra : Option Nat} {i j k : Nat} (once : Matches src r i j)
      (more : Matches src (.repetition r n extra) j k) :
      Matches src (.repetition r (n + 1) extra) i k
  | further {r : Regex} {i j k : Nat} (once : Matches src r i j)
      (more : Matches src (.repetition r 0 none) j k) : Matches src (.repetition r 0 none) i k
  | optional {r : Regex} {n : Nat} {i j k : Nat} (once : Matches src r i j)
      (more : Matches src (.repetition r 0 (some n)) j k) :
      Matches src (.repetition r 0 (some (n + 1))) i k

theorem Matches.le {src : List UInt8} {r : Regex} {i j : Nat} (h : Matches src r i j) : i ≤ j := by
  induction h with
  | empty | assertion | enough => exact Nat.le_refl _
  | bytes => exact Nat.le_succ _
  | seq _ _ first second => exact Nat.le_trans first second
  | altLeft _ ih | altRight _ ih => exact ih
  | required _ _ once more | further _ _ once more | optional _ _ once more =>
    exact Nat.le_trans once more

end Regex

end TableParsing
