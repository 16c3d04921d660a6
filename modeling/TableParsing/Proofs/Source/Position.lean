import Mathlib.Data.Nat.Count
import TableParsing.Source.Position

/-!
# Lines, columns and offsets

The line of an offset is counted from the front of the source, and its column is measured from the
newline that a search backwards finds. Both depend on the same newline: the one that is found is the
last that is counted. So the line of a position says where the line begins, the column how far the
offset lies behind that, and together they give the offset back. Hence positions are ordered as
offsets are.
-/

namespace TableParsing

namespace Position

/-- A newline stands at an offset. -/
def Breaks (src : Source) (i : Nat) : Prop := src[i]? = some newline

instance (src : Source) : DecidablePred (Breaks src) := fun i =>
  inferInstanceAs (Decidable (src[i]? = some newline))

def newlines (src : Source) : List Nat := (List.range src.size).filter (Breaks src ·)

/-- Where a line begins: the first at the start of the source, and each other one behind the newline
that ends the line before it. -/
def lineStart? (src : Source) : Nat → Option Nat
  | 0 => some 0
  | line + 1 => (newlines src)[line]?.map (· + 1)

variable {src : Source} {n last : Nat}

theorem lt_size_of_breaks {i : Nat} (h : Breaks src i) : i < src.size :=
  (Array.getElem?_eq_some_iff.mp h).1

/-- Newlines can be counted by the offsets at which they stand. -/
theorem count_newline (src : Source) (n : Nat) :
    (src.toList.take n).count newline = Nat.count (Breaks src) n := by
  induction n with
  | zero => rw [List.take_zero, Nat.count_zero, List.count_nil]
  | succ n ih =>
      rw [List.take_add_one, List.count_append, ih, Nat.count_succ, Array.getElem?_toList]
      congr 1
      cases byte : src[n]? with
      | none => simp [Breaks, byte]
      | some b => simp [Breaks, byte, List.count_singleton]

theorem line_locate (src : Source) (offset : Nat) :
    (locate src offset).line = Nat.count (Breaks src) (min offset src.size) := by
  rw [← count_newline, locate, Array.toList_extract, List.extract_eq_take_drop, List.drop_zero,
    Nat.sub_zero]

theorem length_newlines_below (src : Source) (n : Nat) :
    ((List.range n).filter (Breaks src ·)).length = Nat.count (Breaks src) n := by
  induction n with
  | zero => rfl
  | succ n ih =>
      rw [List.range_succ, List.filter_append, List.length_append, ih, Nat.count_succ]
      by_cases breaks : Breaks src n <;> simp [breaks]

/-- Among all newlines each has the index that is the number of those before it. -/
theorem getElem?_newlines (breaks : Breaks src last) :
    (newlines src)[Nat.count (Breaks src) last]? = some last := by
  have split : List.range src.size = List.range last ++
      (List.range (src.size - last)).map (last + ·) := by
    rw [← List.range_add, Nat.add_sub_cancel' (Nat.le_of_lt (lt_size_of_breaks breaks))]
  obtain ⟨more, rest⟩ : ∃ more, src.size - last = more + 1 :=
    ⟨src.size - last - 1, by have := lt_size_of_breaks breaks; omega⟩
  rw [newlines, split, rest, List.range_succ_eq_map, List.map_cons, List.filter_append,
    ← length_newlines_below, List.getElem?_append_right (Nat.le_refl _), Nat.sub_self,
    Nat.add_zero, List.filter_cons_of_pos (by simpa using breaks)]
  rfl

/-- What the search finds is a newline, and none stands behind it. -/
theorem lastNewline?_eq_some (h : lastNewline? src n = some last) :
    last < n ∧ Breaks src last ∧ ∀ i, last < i → i < n → ¬ Breaks src i := by
  induction n with
  | zero => cases h
  | succ n ih =>
      rw [lastNewline?] at h
      split at h
      next breaks =>
        obtain rfl := Option.some.inj h
        exact ⟨Nat.lt_succ_self n, breaks, fun i above below => by omega⟩
      next passes =>
        obtain ⟨before, breaks, clear⟩ := ih h
        refine ⟨Nat.lt_succ_of_lt before, breaks, fun i above below => ?_⟩
        rcases Nat.lt_succ_iff_lt_or_eq.mp below with earlier | rfl
        · exact clear i above earlier
        · exact passes

theorem lastNewline?_eq_none (h : lastNewline? src n = none) (i : Nat) (below : i < n) :
    ¬ Breaks src i := by
  induction n with
  | zero => cases below
  | succ n ih =>
      rw [lastNewline?] at h
      split at h
      next => cases h
      next passes =>
        rcases Nat.lt_succ_iff_lt_or_eq.mp below with earlier | rfl
        · exact ih h earlier
        · exact passes

/-- The newline that the search finds is the last one that is counted. -/
theorem count_breaks (src : Source) (n : Nat) :
    Nat.count (Breaks src) n =
      match lastNewline? src n with
      | some last => Nat.count (Breaks src) last + 1
      | none => 0 := by
  induction n with
  | zero => rfl
  | succ n ih =>
      rw [Nat.count_succ, lastNewline?]
      by_cases breaks : Breaks src n
      · rw [if_pos breaks, if_pos (show src[n]? = some newline from breaks)]
      · rw [if_neg breaks, if_neg (show ¬ src[n]? = some newline from breaks), Nat.add_zero, ih]

/-- A line and a column give the offset back: that many bytes behind the start of the line, with no
newline between. -/
theorem exists_lineStart (src : Source) (offset : Nat) :
    ∃ start, lineStart? src (locate src offset).line = some start ∧
      min offset src.size = start + (locate src offset).column ∧
      ∀ i, start ≤ i → i < min offset src.size → ¬ Breaks src i := by
  rw [line_locate, count_breaks]
  simp only [locate]
  cases found : lastNewline? src (min offset src.size) with
  | none =>
      exact ⟨0, rfl, (Nat.zero_add _).symm, fun i _ below => lastNewline?_eq_none found i below⟩
  | some last =>
      obtain ⟨before, breaks, clear⟩ := lastNewline?_eq_some found
      refine ⟨last + 1, ?_, ?_, fun i above below => clear i above below⟩
      · rw [lineStart?, getElem?_newlines breaks, Option.map_some]
      · show min offset src.size = last + 1 + (min offset src.size - last - 1)
        omega

/-- On one line, offsets differ by as much as their columns. -/
theorem add_column_of_line_eq {a b : Nat} (same : (locate src a).line = (locate src b).line) :
    min a src.size + (locate src b).column = min b src.size + (locate src a).column := by
  obtain ⟨start, begins, reaches, _⟩ := exists_lineStart src a
  obtain ⟨start', begins', reaches', _⟩ := exists_lineStart src b
  rw [same, begins'] at begins
  obtain rfl := Option.some.inj begins
  omega

theorem locate_of_size_le {offset : Nat} (h : src.size ≤ offset) :
    locate src offset = locate src src.size := by
  simp only [locate, Nat.min_eq_right h, Nat.min_self]

theorem compare_eq_lt_iff {p q : Position} :
    compare p q = .lt ↔ p.line < q.line ∨ p.line = q.line ∧ p.column < q.column := by
  show (compare p.line q.line).then (compare p.column q.column) = .lt ↔ _
  rw [Ordering.then_eq_lt, Nat.compare_eq_lt, Nat.compare_eq_eq, Nat.compare_eq_lt]

/-- A later offset has a later position. -/
theorem compare_locate_of_lt {a b : Nat} (before : a < b) (within : b ≤ src.size) :
    compare (locate src a) (locate src b) = .lt := by
  rw [compare_eq_lt_iff]
  have lines : (locate src a).line ≤ (locate src b).line := by
    rw [line_locate, line_locate]
    exact Nat.count_monotone _ (by omega)
  rcases Nat.lt_or_eq_of_le lines with fewer | same
  · exact .inl fewer
  · have columns := add_column_of_line_eq same
    exact .inr ⟨same, by omega⟩

/-- A position is exact: its line is the number of newlines before the offset, and its column is the
distance from the start of that line, with no newline between. The search for the last newline finds
one that ends before the offset. Later offsets have later positions and an offset can be told from
its position, up to the end of the source, which stands for all offsets past it. -/
theorem locate_exact (src : Source) (offset : Nat) :
    (locate src offset).line = (src.toList.take (min offset src.size)).count newline ∧
    (∃ start, lineStart? src (locate src offset).line = some start ∧
      min offset src.size = start + (locate src offset).column ∧
      ∀ i, start ≤ i → i < min offset src.size → src[i]? ≠ some newline) ∧
    (∀ last, lastNewline? src (min offset src.size) = some last →
      last + 1 ≤ min offset src.size) ∧
    (∀ a b, a < b → b ≤ src.size → compare (locate src a) (locate src b) = .lt) ∧
    (∀ a b, a ≤ src.size → b ≤ src.size → locate src a = locate src b → a = b) ∧
    (src.size ≤ offset → locate src offset = locate src src.size) := by
  refine ⟨?_, exists_lineStart src offset, ?_, ?_, ?_, locate_of_size_le⟩
  · rw [line_locate, count_newline]
  · intro last found
    exact (lastNewline?_eq_some found).1
  · intro a b before within
    exact compare_locate_of_lt before within
  · intro a b within within' same
    have columns := add_column_of_line_eq (congrArg line same)
    rw [same] at columns
    omega

/-- Right behind a newline, at the newline of an empty line, and past the end. -/
example : [2, 5, 6, 99].map (locate (.ofString "a\nbc\n\nd")) =
    [⟨1, 0⟩, ⟨2, 0⟩, ⟨3, 0⟩, ⟨3, 1⟩] := by
  decide +kernel

end Position

end TableParsing
