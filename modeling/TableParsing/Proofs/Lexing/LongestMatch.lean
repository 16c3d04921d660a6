import TableParsing.Lexing.Engine

/-!
# The longest match of a search

A scan asks the states that it goes through what they list, and stops at states from which nothing
more can be found. `Machine.Follows` says what a search from an offset has to answer so that it sees
certain matches. These are the only facts about an automaton that are used here.

The scan stops early, and it never takes an empty match. `lastNoticed` scans without either
precaution: it reads all bytes, looks once more at the end, and remembers the last match of whatever
length. It comes to the same, and what it remembers at an offset is the longest of the matches that
end before.
-/

namespace TableParsing

/-- A match is seen, given by its pattern and its length from `i` on, and no longer one is, and none
of an earlier pattern as long. Matches are given by where they end and by their pattern. -/
structure LongestMatch (sees : Nat → Nat → Prop) (i pattern length : Nat) : Prop where
  matched : sees (i + length) pattern
  longest : ∀ j p, sees j p → j ≤ i + length
  first : ∀ p, sees (i + length) p → pattern ≤ p

/-- The first bytes of what remains stand at the offset and behind it. -/
theorem getElem?_of_drop {src rest : List UInt8} {b : UInt8} {i : Nat}
    (remaining : src.drop i = b :: rest) : src[i]? = some b ∧ src[i + 1]? = rest.head? := by
  constructor
  · rw [← List.head?_drop, remaining, List.head?_cons]
  · rw [← List.head?_drop, ← List.tail_drop, remaining, List.tail_cons]

/-- What follows a first byte. -/
theorem drop_byte {src rest : List UInt8} {b : UInt8} {i : Nat}
    (remaining : src.drop i = b :: rest) : src.drop (i + 1) = rest := by
  rw [← List.tail_drop, remaining, List.tail_cons]

namespace LongestMatch

variable {sees sees' : Nat → Nat → Prop} {i pattern pattern' length length' : Nat}

theorem congr (same : ∀ j p, sees j p ↔ sees' j p) :
    LongestMatch sees i pattern length ↔ LongestMatch sees' i pattern length := by
  obtain rfl : sees = sees' := funext fun j => funext fun p => propext (same j p)
  exact Iff.rfl

theorem unique (h : LongestMatch sees i pattern length)
    (h' : LongestMatch sees i pattern' length') : pattern = pattern' ∧ length = length' := by
  obtain rfl : length = length' := by
    have := h.longest _ _ h'.matched
    have := h'.longest _ _ h.matched
    omega
  exact ⟨Nat.le_antisymm (h.first _ h'.matched) (h'.first _ h.matched), rfl⟩

end LongestMatch

def Match.pair (m : Match) : Nat × Nat := (m.pattern, m.length)

/-- Only matches that are not empty are kept. -/
theorem map_pair_ofPair? (last : Option (Nat × Nat)) :
    (last.bind Match.ofPair?).map Match.pair = last.filter (0 < ·.2) := by
  cases last with
  | none => rfl
  | some m =>
      rw [Option.bind_some, Match.ofPair?, Option.filter_some]
      by_cases pos : 0 < m.2
      · simp [pos, Match.pair]
      · simp [pos]

namespace Machine

variable {A S : Type} [Machine A S]

/-- The states of a search from `i`, each with the offset up to which it has read. -/
inductive Reached (a : A) (src : List UInt8) (i : Nat) (begin : S) : Nat → S → Prop where
  | start : Reached a src i begin i begin
  | next {k : Nat} {s : S} {b : UInt8} (reached : Reached a src i begin k s)
      (read : src[k]? = some b) : Reached a src i begin (k + 1) (next a s b)

/-- A state lists certain patterns, the first one first, and is a match state if there are any. -/
def Lists (a : A) (s : S) (patterns : Nat → Prop) : Prop :=
  ∃ ps : List Nat, ps.Pairwise (· < ·) ∧ (∀ p, p ∈ ps ↔ patterns p) ∧
    (isMatch a s = true ↔ ps ≠ []) ∧ ∀ n, (inside : n < ps.length) → listed a s n = ps[n]

/-- A search from `i` sees certain matches: those that end at an offset are listed after the byte
there, or after the end of the input. Nothing is seen any more from a dead state on, or once the
automaton has given up. -/
structure Follows (a : A) (src : List UInt8) (i : Nat) (begin : S) (sees : Nat → Nat → Prop) :
    Prop where
  onByte : ∀ {k s b}, Reached a src i begin k s → src[k]? = some b →
    Lists a (next a s b) (sees k)
  atEnd : ∀ {s}, Reached a src i begin src.length s → Lists a (finish a s) (sees src.length)
  stops : ∀ {k s b}, Reached a src i begin k s → src[k]? = some b →
    isDead a (next a s b) = true ∨ isQuit a (next a s b) = true → ∀ j p, k < j → ¬ sees j p
  special : ∀ {s : S}, isMatch a s = true → isSpecial a s = true
  within : ∀ {j p}, sees j p → j ≤ src.length

variable {a : A} {src rest : List UInt8} {i k length : Nat} {begin s : S} {b : UInt8}
variable {sees : Nat → Nat → Prop} {patterns : Nat → Prop} {last : Option (Nat × Nat)}

theorem Lists.isMatch_iff (h : Lists a s patterns) : isMatch a s = true ↔ ∃ p, patterns p := by
  obtain ⟨ps, _, members, nonempty, _⟩ := h
  rw [nonempty]
  constructor
  · intro some_listed
    obtain ⟨p, mem⟩ := List.exists_mem_of_ne_nil ps some_listed
    exact ⟨p, (members p).mp mem⟩
  · rintro ⟨p, here⟩
    exact List.ne_nil_of_mem ((members p).mpr here)

/-- What a match state lists first is its first pattern. -/
theorem Lists.first (h : Lists a s patterns) (found : isMatch a s = true) :
    patterns (listed a s 0) ∧ ∀ p, patterns p → listed a s 0 ≤ p := by
  obtain ⟨ps, sorted, members, nonempty, order⟩ := h
  cases ps with
  | nil => exact absurd rfl (nonempty.mp found)
  | cons q qs =>
      rw [order 0 (Nat.zero_lt_succ _), List.getElem_cons_zero]
      refine ⟨(members q).mp List.mem_cons_self, fun p here => ?_⟩
      rcases List.mem_cons.mp ((members p).mpr here) with rfl | later
      · exact Nat.le_refl p
      · exact Nat.le_of_lt ((List.pairwise_cons.mp sorted).1 p later)

/-- The match that a state lists first, which may be empty, or else the one from before. -/
def notice (a : A) (s : S) (last : Option (Nat × Nat)) (length : Nat) : Option (Nat × Nat) :=
  if isMatch a s then some (listed a s 0, length) else last

/-- The last match that is noticed in the remaining bytes and at their end. -/
def lastNoticed (a : A) (s : S) (last : Option (Nat × Nat)) (length : Nat) :
    List UInt8 → Option (Nat × Nat)
  | [] => notice a (finish a s) last length
  | b :: rest =>
    lastNoticed a (next a s b) (notice a (next a s b) last length) (length + 1) rest

theorem notice_of_unseen (h : Lists a s patterns) (unseen : ∀ p, ¬ patterns p) :
    notice a s last length = last := by
  refine if_neg fun found => ?_
  obtain ⟨p, here⟩ := h.isMatch_iff.mp found
  exact unseen p here

/-- Where nothing is seen any more, nothing is noticed any more. -/
theorem Follows.lastNoticed_of_unseen (h : Follows a src i begin sees)
    (reached : Reached a src i begin k s) (inside : k ≤ src.length)
    (unseen : ∀ j p, k ≤ j → ¬ sees j p) : lastNoticed a s last length (src.drop k) = last := by
  generalize remaining : src.drop k = bytes
  induction bytes generalizing k s length with
  | nil =>
      obtain rfl : k = src.length := Nat.le_antisymm inside (List.drop_eq_nil_iff.mp remaining)
      exact notice_of_unseen (h.atEnd reached) fun p => unseen _ p (Nat.le_refl _)
  | cons b rest ih =>
      obtain ⟨read, -⟩ := getElem?_of_drop remaining
      have bound : k < src.length := (List.getElem?_eq_some_iff.mp read).1
      have later : ∀ j p, k + 1 ≤ j → ¬ sees j p := fun j p le => unseen j p (by omega)
      rw [lastNoticed, notice_of_unseen (h.onByte reached read) fun p => unseen k p (Nat.le_refl k)]
      exact ih (reached.next read) bound later (drop_byte remaining)

/-- Stopping early makes no difference. -/
theorem Follows.scan_eq (h : Follows a src i begin sees) (reached : Reached a src i begin k s)
    (inside : k ≤ src.length) :
    scan a s last length (src.drop k) = lastNoticed a s last length (src.drop k) := by
  generalize remaining : src.drop k = bytes
  induction bytes generalizing k s last length with
  | nil => rfl
  | cons b rest ih =>
      obtain ⟨read, -⟩ := getElem?_of_drop remaining
      have bound : k < src.length := (List.getElem?_eq_some_iff.mp read).1
      have reached' := reached.next read
      have goesOn (last : Option (Nat × Nat)) : scan a (next a s b) last (length + 1) rest =
          lastNoticed a (next a s b) last (length + 1) rest :=
        ih reached' bound (drop_byte remaining)
      rw [scan, lastNoticed, notice]
      cases found : isMatch a (next a s b) with
      | true => simp only [h.special found, if_true, goesOn]
      | false =>
          simp only [Bool.false_eq_true, if_false]
          split
          · split
            · next stopped =>
                -- From here on nothing is seen, and what is skipped would have noticed nothing.
                have unseen := h.stops reached read (Bool.or_eq_true_iff.mp stopped)
                rw [← drop_byte remaining, h.lastNoticed_of_unseen reached' bound unseen]
            · exact goesOn last
          · exact goesOn last

/-- What has been noticed last of the matches that end before `k`. -/
def LastBefore (sees : Nat → Nat → Prop) (i k : Nat) : Option (Nat × Nat) → Prop
  | none => ∀ j p, i ≤ j → j < k → ¬ sees j p
  | some (pattern, length) => LongestMatch (fun j p => j < k ∧ sees j p) i pattern length

theorem LastBefore.start (sees : Nat → Nat → Prop) (i : Nat) : LastBefore sees i i none :=
  fun _ _ le lt => absurd lt (Nat.not_lt_of_le le)

/-- An offset at which nothing ends does not change what has been noticed last. -/
theorem LastBefore.pass (h : LastBefore sees i k last) (unseen : ∀ p, ¬ sees k p) :
    LastBefore sees i (k + 1) last := by
  have same (j p : Nat) : j < k ∧ sees j p ↔ j < k + 1 ∧ sees j p := by
    constructor
    · exact fun ⟨lt, here⟩ => ⟨Nat.lt_succ_of_lt lt, here⟩
    · rintro ⟨lt, here⟩
      refine ⟨Nat.lt_of_le_of_ne (Nat.le_of_lt_succ lt) ?_, here⟩
      rintro rfl
      exact unseen p here
  cases last with
  | none => exact fun j p le lt here => h j p le ((same j p).mpr ⟨lt, here⟩).1 here
  | some m => exact (LongestMatch.congr same).mp h

/-- Looking at a state that lists the matches that end at `k`. -/
theorem LastBefore.notice (h : LastBefore sees i k last) (lists : Lists a s (sees k))
    (count : i + length = k) : LastBefore sees i (k + 1) (notice a s last length) := by
  unfold Machine.notice
  split
  · next found =>
      obtain ⟨here, least⟩ := lists.first found
      subst count
      refine ⟨⟨Nat.lt_succ_self _, here⟩, ?_, ?_⟩
      · exact fun j p seen => Nat.le_of_lt_succ seen.1
      · exact fun p seen => least p seen.2
  · next missing => exact h.pass fun p here => missing (lists.isMatch_iff.mpr ⟨p, here⟩)

/-- What is noticed last in the rest of a source is the last of all that is seen. -/
theorem Follows.lastNoticed_last (h : Follows a src i begin sees)
    (reached : Reached a src i begin k s) (noticed : LastBefore sees i k last)
    (count : i + length = k) (inside : k ≤ src.length) :
    LastBefore sees i (src.length + 1) (lastNoticed a s last length (src.drop k)) := by
  generalize remaining : src.drop k = bytes
  induction bytes generalizing k s last length with
  | nil =>
      obtain rfl : k = src.length := Nat.le_antisymm inside (List.drop_eq_nil_iff.mp remaining)
      exact noticed.notice (h.atEnd reached) count
  | cons b rest ih =>
      obtain ⟨read, -⟩ := getElem?_of_drop remaining
      have bound : k < src.length := (List.getElem?_eq_some_iff.mp read).1
      have noticed' := noticed.notice (h.onByte reached read) count
      exact ih (reached.next read) noticed' (congrArg (· + 1) count) bound (drop_byte remaining)

/-- The search finds the longest match of those that it sees, unless it sees none that is not
empty. -/
theorem Follows.longestMatch?_outcome (h : Follows a src i begin sees) (inside : i ≤ src.length) :
    (∃ m, longestMatch? a begin (src.drop i) = some m ∧
      LongestMatch sees i m.pattern m.length) ∨
    longestMatch? a begin (src.drop i) = none ∧ ∀ j p, i < j → ¬ sees j p := by
  have last := h.lastNoticed_last .start (.start sees i) (Nat.add_zero i) inside
  rw [← h.scan_eq .start inside] at last
  have all (j p : Nat) : j < src.length + 1 ∧ sees j p ↔ sees j p :=
    and_iff_right_of_imp fun here => Nat.lt_succ_of_le (h.within here)
  unfold longestMatch?
  cases found : scan a begin none 0 (src.drop i) with
  | none =>
      rw [found] at last
      refine .inr ⟨rfl, fun j p lt here => ?_⟩
      exact last j p (Nat.le_of_lt lt) ((all j p).mpr here).1 here
  | some m =>
      obtain ⟨pattern, length⟩ := m
      rw [found] at last
      have longest := (LongestMatch.congr all).mp last
      by_cases pos : 0 < length
      · exact .inl ⟨⟨pattern, length, pos⟩, dif_pos pos, longest⟩
      · refine .inr ⟨dif_neg pos, fun j p lt here => ?_⟩
        have := longest.longest j p here
        omega

theorem Follows.longestMatch?_eq_some_iff (h : Follows a src i begin sees)
    (inside : i ≤ src.length) {m : Match} :
    longestMatch? a begin (src.drop i) = some m ↔ LongestMatch sees i m.pattern m.length := by
  obtain ⟨m', found, longest⟩ | ⟨missing, unseen⟩ := h.longestMatch?_outcome inside
  · rw [found, Option.some.injEq]
    constructor
    · rintro rfl
      exact longest
    · intro longest'
      obtain ⟨pattern, length⟩ := longest.unique longest'
      exact Match.ext pattern length
  · rw [missing]
    refine ⟨nofun, fun longest => ?_⟩
    exact absurd longest.matched (unseen _ _ (Nat.lt_add_of_pos_right m.pos))

theorem Follows.longestMatch?_eq_none_iff (h : Follows a src i begin sees)
    (inside : i ≤ src.length) :
    longestMatch? a begin (src.drop i) = none ↔ ∀ j p, i < j → ¬ sees j p := by
  obtain ⟨m, found, longest⟩ | ⟨missing, unseen⟩ := h.longestMatch?_outcome inside
  · rw [found]
    refine ⟨nofun, fun unseen => ?_⟩
    exact absurd longest.matched (unseen _ _ (Nat.lt_add_of_pos_right m.pos))
  · exact iff_of_true missing unseen

/-- The search comes to what is noticed last, if that is not empty. -/
theorem Follows.map_pair_longestMatch? (h : Follows a src i begin sees)
    (inside : i ≤ src.length) :
    (longestMatch? a begin (src.drop i)).map Match.pair =
      (lastNoticed a begin none 0 (src.drop i)).filter (0 < ·.2) := by
  rw [longestMatch?, map_pair_ofPair?, h.scan_eq .start inside]

end Machine

end TableParsing
