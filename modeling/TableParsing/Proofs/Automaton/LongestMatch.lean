import TableParsing.Automaton.Basic
import TableParsing.Proofs.Lexing.LongestMatch

/-!
# What automata see

The states of a search are related to what the patterns match. What is alive at an offset are, for
each pattern, the expressions that must match from there on for the pattern to match from the start
of the search; and what has been noticed are the patterns that match up to the byte read last.

Matches are noticed one byte late. An automaton that gives up on a byte therefore overlooks the
matches that end right in front of it, besides all longer ones: `Sees` says which ones are left. An
automaton that gives up on no byte sees all matches of its patterns.
-/

namespace TableParsing

open Regex (Matches)

/-- A match that is not empty lies within the bytes. -/
theorem Regex.Matches.le_length {src : List UInt8} {r : Regex} {i j : Nat}
    (h : Matches src r i j) (lt : i < j) : j ≤ src.length := by
  induction h with
  | empty | assertion | enough => exact absurd lt (Nat.lt_irrefl _)
  | bytes read => exact (List.getElem?_eq_some_iff.mp read).1
  | altLeft _ ih | altRight _ ih => exact ih lt
  | seq once more ih ih' | required once more ih ih'
  | further once more ih ih' | optional once more ih ih' =>
      rcases Nat.lt_or_eq_of_le more.le with later | rfl
      · exact ih' later
      · exact ih lt

namespace Automaton

/-- A pattern, given by its number, matches the bytes from `i` up to `j`. -/
def PatternMatches (a : Automaton) (src : List UInt8) (i j p : Nat) : Prop :=
  ∃ r, a.patterns[p]? = some r ∧ Matches src r i j

/-- A search from `i` notices that a pattern matches up to `j`: the automaton gives up on no byte of
the match, and not on the byte behind it. -/
structure Sees (a : Automaton) (src : List UInt8) (i j p : Nat) : Prop where
  matched : a.PatternMatches src i j p
  quiet : ∀ k b, i ≤ k → k ≤ j → src[k]? = some b → a.quits.contains b = false

/-- The longest match that a search from `i` notices, of the first pattern among equals. -/
abbrev Finds (a : Automaton) (src : List UInt8) (i : Nat) (m : Match) : Prop :=
  LongestMatch (a.Sees src i) i m.pattern m.length

variable {a : Automaton} {src : List UInt8} {i j k p : Nat} {m m' : Match}

theorem contains_empty (b : UInt8) : ByteSet.empty.contains b = false := rfl

/-- An automaton that gives up on no byte sees whatever its patterns match. -/
theorem sees_iff_patternMatches (never : a.quits = .empty) :
    a.Sees src i j p ↔ a.PatternMatches src i j p := by
  constructor
  · exact Sees.matched
  · intro matched
    refine ⟨matched, ?_⟩
    intro k b _ _ _
    rw [never]
    exact contains_empty b

theorem Sees.le_length (h : a.Sees src i j p) (start : i ≤ src.length) : j ≤ src.length := by
  obtain ⟨⟨r, _, matched⟩, _⟩ := h
  rcases Nat.lt_or_eq_of_le matched.le with lt | rfl
  · exact matched.le_length lt
  · exact start

/-- Nothing that goes as far as a byte that is given up on is seen. -/
theorem not_sees_of_quits {b : UInt8} (read : src[k]? = some b) (quits : a.quits.contains b = true)
    (behind : i ≤ k) (inside : k ≤ j) : ¬ a.Sees src i j p := by
  intro sees
  have calm := sees.quiet k b behind inside read
  rw [quits] at calm
  cases calm

theorem Finds.le_length (h : a.Finds src i m) : i + m.length ≤ src.length := by
  obtain ⟨⟨r, _, matched⟩, _⟩ := h.matched
  exact matched.le_length (Nat.lt_add_of_pos_right m.pos)

theorem Finds.unique (h : a.Finds src i m) (h' : a.Finds src i m') : m = m' := by
  obtain ⟨pattern, length⟩ := LongestMatch.unique h h'
  exact Match.ext pattern length

namespace State

/-- A state at `k` of a scan from `i` tells for each pattern what is left to match, and lists the
patterns by increasing number. -/
structure Tracks (s : State) (a : Automaton) (src : List UInt8) (i k : Nat) : Prop where
  sorted : s.Pairwise (·.1 < ·.1)
  alive : ∀ p j, k ≤ j →
    (a.PatternMatches src i j p ↔ ∃ rs, (p, rs) ∈ s ∧ ∃ r ∈ rs, Matches src r k j)

theorem tracks_start (a : Automaton) (src : List UInt8) (i : Nat) :
    Tracks a.start a src i i := by
  constructor
  · rw [start, List.pairwise_map]
    have numbers : (a.patterns.zipIdx.map Prod.snd).Pairwise (· < ·) := by
      rw [List.zipIdx_map_snd]
      exact List.pairwise_lt_range'
    exact List.pairwise_map.mp numbers
  · intro p j _
    simp only [PatternMatches, start, List.mem_map, Prod.exists, List.mk_mem_zipIdx_iff_getElem?]
    constructor
    · rintro ⟨r, listed, matched⟩
      exact ⟨[r], ⟨r, p, listed, rfl⟩, r, List.mem_singleton.mpr rfl, matched⟩
    · rintro ⟨rs, ⟨r, q, listed, same⟩, r', mem, matched⟩
      obtain ⟨rfl, rfl⟩ := Prod.mk.inj same
      obtain rfl := List.mem_singleton.mp mem
      exact ⟨r', listed, matched⟩

variable {s : State} {b : UInt8}

theorem mem_advance {c : Context} {ds : List Regex} :
    (p, ds) ∈ s.advance c b ↔
      ds ≠ [] ∧ ∃ rs, (p, rs) ∈ s ∧ (rs.flatMap (·.derivatives c b)).eraseDups = ds := by
  simp only [advance, List.mem_filterMap, Prod.exists]
  constructor
  · rintro ⟨q, rs, mem, eq⟩
    split at eq
    · cases eq
    · next nonempty =>
        obtain ⟨rfl, rfl⟩ := Prod.mk.inj (Option.some.inj eq)
        exact ⟨nonempty, rs, mem, rfl⟩
  · rintro ⟨nonempty, rs, mem, rfl⟩
    refine ⟨p, rs, mem, ?_⟩
    split
    · next empty => exact absurd empty nonempty
    · rfl

/-- Reading a byte keeps what a state says. -/
theorem Tracks.advance (h : s.Tracks a src i k) (read : src[k]? = some b) :
    (s.advance (Context.of src k) b).Tracks a src i (k + 1) := by
  constructor
  · refine List.Pairwise.filterMap _ ?_ h.sorted
    rintro ⟨q, rs⟩ ⟨q', rs'⟩ lt x hx y hy
    simp only at hx hy
    split at hx
    · cases hx
    · split at hy
      · cases hy
      · obtain rfl := Option.some.inj hx
        obtain rfl := Option.some.inj hy
        exact lt
  · intro p j bound
    rw [h.alive p j (Nat.le_of_succ_le bound)]
    constructor
    · rintro ⟨rs, mem, r, hr, matched⟩
      obtain ⟨d, hd, rest⟩ := (Regex.matches_step_iff read bound).mp matched
      have derived : d ∈ (rs.flatMap (·.derivatives (Context.of src k) b)).eraseDups :=
        List.mem_eraseDups.mpr (List.mem_flatMap.mpr ⟨r, hr, hd⟩)
      exact ⟨_, mem_advance.mpr ⟨List.ne_nil_of_mem derived, rs, mem, rfl⟩, d, derived, rest⟩
    · rintro ⟨ds, mem, d, hd, rest⟩
      obtain ⟨_, rs, mem', rfl⟩ := mem_advance.mp mem
      obtain ⟨r, hr, derived⟩ := List.mem_flatMap.mp (List.mem_eraseDups.mp hd)
      exact ⟨rs, mem', r, hr, (Regex.matches_step_iff read bound).mpr ⟨d, derived, rest⟩⟩

/-- What a state accepts are the patterns that match up to the present offset, in order. -/
theorem Tracks.accepted (h : s.Tracks a src i k) :
    (s.accepted (Context.of src k)).Pairwise (· < ·) ∧
      ∀ p, p ∈ s.accepted (Context.of src k) ↔ a.PatternMatches src i k p := by
  constructor
  · exact List.pairwise_map.mpr (h.sorted.filter _)
  · intro p
    rw [h.alive p k (Nat.le_refl k)]
    simp only [State.accepted, List.mem_map, List.mem_filter, List.any_eq_true, Prod.exists,
      ← Regex.matches_self_iff]
    constructor
    · rintro ⟨_, rs, ⟨mem, accepts⟩, rfl⟩
      exact ⟨rs, mem, accepts⟩
    · rintro ⟨rs, mem, accepts⟩
      exact ⟨p, rs, ⟨mem, accepts⟩, rfl⟩

end State

namespace Scan

variable {s : Scan} {b : UInt8} {patterns : Nat → Prop}

/-- What a state of a search from `i` knows that has read up to `k`. -/
def Keeps (a : Automaton) (src : List UInt8) (i k : Nat) : Scan → Prop
  | .reading alive before _ =>
    alive.Tracks a src i k ∧ before = (Context.of src k).before ∧
      ∀ k' b, i ≤ k' → k' < k → src[k']? = some b → a.quits.contains b = false
  | .quit => ∃ k' b, i ≤ k' ∧ k' < k ∧ src[k']? = some b ∧ a.quits.contains b = true

theorem keeps_begin (a : Automaton) (src : List UInt8) (i : Nat) :
    Keeps a src i i (a.begin (Context.of src i).before) := by
  refine ⟨State.tracks_start a src i, rfl, ?_⟩
  exact fun k' b le lt => absurd lt (Nat.not_lt_of_le le)

theorem context_of_read (read : src[k]? = some b) :
    Context.of src k = ⟨(Context.of src k).before, some b⟩ := by
  simp [Context.of, read]

/-- One more byte that is not given up on. -/
theorem quiet_of_calm
    (calm : ∀ k' b, i ≤ k' → k' < k → src[k']? = some b → a.quits.contains b = false)
    (read : src[k]? = some b) (quiet : ¬ a.quits.contains b = true) :
    ∀ k' b, i ≤ k' → k' ≤ k → src[k']? = some b → a.quits.contains b = false := by
  intro k' b' start le read'
  rcases Nat.lt_or_eq_of_le le with early | rfl
  · exact calm k' b' start early read'
  · obtain rfl := Option.some.inj (read.symm.trans read')
    exact Bool.eq_false_iff.mpr quiet

theorem keeps_next (h : Keeps a src i k s) (behind : i ≤ k) (read : src[k]? = some b) :
    Keeps a src i (k + 1) (s.next a b) := by
  cases s with
  | quit =>
      obtain ⟨k', b', start, lt, read', quits⟩ := h
      exact ⟨k', b', start, Nat.lt_succ_of_lt lt, read', quits⟩
  | reading alive before noticed =>
      obtain ⟨tracks, rfl, calm⟩ := h
      rw [next]
      split
      · next quits => exact ⟨k, b, behind, Nat.lt_succ_self k, read, quits⟩
      · next quiet =>
          rw [← context_of_read read]
          refine ⟨tracks.advance read, by simp [Context.of, read], ?_⟩
          intro k' b' start lt
          exact quiet_of_calm calm read quiet k' b' start (Nat.le_of_lt_succ lt)

/-- All states of a search keep what they have to know. -/
theorem keeps_of_reached
    (h : Machine.Reached a src i (a.begin (Context.of src i).before) k s) :
    i ≤ k ∧ Keeps a src i k s := by
  induction h with
  | start => exact ⟨Nat.le_refl i, keeps_begin a src i⟩
  | next _ read ih => exact ⟨Nat.le_succ_of_le ih.1, keeps_next ih.2 ih.1 read⟩

/-- What has been noticed is listed. -/
theorem lists (sorted : s.noticed.Pairwise (· < ·)) (members : ∀ p, p ∈ s.noticed ↔ patterns p) :
    Machine.Lists a s patterns := by
  refine ⟨s.noticed, sorted, members, ?_, fun n inside => ?_⟩
  · show s.isMatch = true ↔ s.noticed ≠ []
    simp [isMatch]
  · show s.noticed.getD n 0 = s.noticed[n]
    rw [List.getD_eq_getElem?_getD, List.getElem?_eq_getElem inside, Option.getD_some]

/-- The patterns that match up to an offset are seen if no byte has been given up on. -/
theorem lists_accepted {alive : State} {before : Option UInt8} (tracks : alive.Tracks a src i k)
    (quiet : ∀ k' b, i ≤ k' → k' ≤ k → src[k']? = some b → a.quits.contains b = false)
    (s : State) :
    Machine.Lists a (.reading s before (alive.accepted (Context.of src k))) (a.Sees src i k) := by
  obtain ⟨sorted, members⟩ := tracks.accepted
  refine lists sorted fun p => (members p).trans ?_
  exact ⟨fun matched => ⟨matched, quiet⟩, Sees.matched⟩

theorem lists_quit (unseen : ∀ p, ¬ patterns p) : Machine.Lists a .quit patterns :=
  lists .nil fun p => iff_of_false List.not_mem_nil (unseen p)

end Scan

variable {b : UInt8}

/-- After a byte, the patterns that match in front of it are listed. -/
theorem Scan.lists_next {s : Scan} (h : s.Keeps a src i k) (behind : i ≤ k)
    (read : src[k]? = some b) : Machine.Lists a (s.next a b) (a.Sees src i k) := by
  cases s with
  | quit =>
      obtain ⟨k', b', start, lt, read', quits⟩ := h
      exact lists_quit fun p => not_sees_of_quits read' quits start (Nat.le_of_lt lt)
  | reading alive before noticed =>
      obtain ⟨tracks, rfl, calm⟩ := h
      rw [next]
      split
      · next quits =>
          exact lists_quit fun p => not_sees_of_quits read quits behind (Nat.le_refl k)
      · next quiet =>
          rw [← context_of_read read]
          exact lists_accepted tracks (quiet_of_calm calm read quiet) _

/-- At the end, the patterns that match up to there are listed. -/
theorem Scan.lists_finish {s : Scan} (h : s.Keeps a src i src.length) :
    Machine.Lists a s.finish (a.Sees src i src.length) := by
  cases s with
  | quit =>
      obtain ⟨k', b', start, lt, read', quits⟩ := h
      exact lists_quit fun p => not_sees_of_quits read' quits start (Nat.le_of_lt lt)
  | reading alive before noticed =>
      obtain ⟨tracks, rfl, calm⟩ := h
      have context : Context.of src src.length = ⟨(Context.of src src.length).before, none⟩ := by
        simp [Context.of]
      rw [finish, ← context]
      refine lists_accepted tracks (fun k' b' start _ read' => ?_) _
      exact calm k' b' start (List.getElem?_eq_some_iff.mp read').1 read'

/-- From a dead state on, and once the automaton has given up, nothing is seen. -/
theorem Scan.unseen_of_stops {s : Scan} (h : s.Keeps a src i k)
    (stops : s.isDead = true ∨ s.isQuit = true) (later : k ≤ j) : ¬ a.Sees src i j p := by
  cases s with
  | quit =>
      obtain ⟨k', b', start, lt, read', quits⟩ := h
      exact not_sees_of_quits read' quits start (by omega)
  | reading alive before noticed =>
      obtain ⟨tracks, -, -⟩ := h
      intro sees
      obtain ⟨rs, mem, -⟩ := (tracks.alive p j later).mp sees.matched
      rcases stops with dead | quits
      · rw [isDead, Bool.and_eq_true, List.isEmpty_iff] at dead
        rw [dead.1] at mem
        cases mem
      · cases quits

/-- Without bytes to give up on, an automaton does not give up. -/
theorem Scan.isQuit_of_keeps {s : Scan} (never : a.quits = .empty) (h : s.Keeps a src i k) :
    s.isQuit = false := by
  cases s with
  | quit =>
      obtain ⟨_, b', _, _, _, quits⟩ := h
      rw [never, contains_empty] at quits
      cases quits
  | reading => rfl

/-- A search inside a source sees what `Sees` says. -/
theorem follows (a : Automaton) (inside : i ≤ src.length) :
    Machine.Follows a src i (a.begin (Context.of src i).before) (a.Sees src i) where
  onByte reached read := by
    obtain ⟨behind, keeps⟩ := Scan.keeps_of_reached reached
    exact Scan.lists_next keeps behind read
  atEnd reached := Scan.lists_finish (Scan.keeps_of_reached reached).2
  stops reached read stopped _ _ later := by
    obtain ⟨-, keeps⟩ := Scan.keeps_of_reached (reached.next read)
    exact Scan.unseen_of_stops keeps stopped later
  special found := by
    apply Bool.or_eq_true_iff.mpr
    exact .inl (Bool.or_eq_true_iff.mpr (.inl found))
  within sees := sees.le_length inside

theorem longestMatch?_eq_some_iff (inside : i ≤ src.length) :
    Machine.longestMatch? a (a.begin (Context.of src i).before) (src.drop i) = some m ↔
      a.Finds src i m :=
  (a.follows inside).longestMatch?_eq_some_iff inside

theorem longestMatch?_eq_none_iff (inside : i ≤ src.length) :
    Machine.longestMatch? a (a.begin (Context.of src i).before) (src.drop i) = none ↔
      ∀ j p, i < j → ¬ a.Sees src i j p :=
  (a.follows inside).longestMatch?_eq_none_iff inside

theorem start_of_refusal {before : Option UInt8} {refusal : SearchRefusal}
    (cannot : a.refusal? before = some refusal) : Machine.start a before = .error refusal := by
  show a.tryBegin before = .error refusal
  rw [tryBegin, cannot]

theorem start_of_begins {before : Option UInt8} (begins : a.refusal? before = none) :
    Machine.start a before = .ok (a.begin before) := by
  show a.tryBegin before = .ok (a.begin before)
  rw [tryBegin, begins]

end Automaton

end TableParsing
