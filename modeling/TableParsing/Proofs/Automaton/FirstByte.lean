import TableParsing.Proofs.Automaton.LongestMatch

/-!
# Matches by their first byte

For an automaton that gives up on no byte, the state behind the first byte of a search tells which
matches there are. Where that state is known, the longest match is found by looking at the
expressions in it; a repeated set of bytes, which is the usual one, goes as far as its bytes do.
-/

namespace TableParsing

open Regex (Matches)

namespace Regex

variable {src rest : List UInt8} {set : ByteSet} {i j : Nat}

/-- A set of bytes that may be repeated matches the beginnings of a run of its bytes. -/
theorem matches_star_iff (remaining : src.drop i = rest) :
    Matches src (.repetition (.bytes set) 0 none) i j ↔
      i ≤ j ∧ j ≤ i + (rest.takeWhile set.contains).length := by
  induction rest generalizing i with
  | nil =>
      have atEnd : src[i]? = none := by rw [← List.head?_drop, remaining, List.head?_nil]
      constructor
      · intro h
        refine ⟨h.le, ?_⟩
        rcases Nat.lt_or_eq_of_le h.le with lt | rfl
        · have := h.le_length lt
          have := List.getElem?_eq_none_iff.mp atEnd
          omega
        · exact Nat.le_add_right _ _
      · rintro ⟨lower, upper⟩
        obtain rfl := Nat.le_antisymm lower upper
        exact .enough
  | cons b rest ih =>
      have read : src[i]? = some b := by rw [← List.head?_drop, remaining, List.head?_cons]
      have remaining' : src.drop (i + 1) = rest := by
        rw [← List.tail_drop, remaining, List.tail_cons]
      rcases Nat.lt_trichotomy i j with lt | rfl | gt
      · rw [matches_step_iff read lt]
        cases member : set.contains b with
        | true =>
            simp only [derivatives, owed, member, if_true, List.map_cons, List.map_nil, followedBy,
              List.mem_singleton, exists_eq_left, ih remaining', List.takeWhile_cons,
              List.length_cons]
            omega
        | false =>
            simp only [derivatives, owed, member, List.takeWhile_cons]
            simp
            omega
      · exact iff_of_true .enough ⟨Nat.le_refl _, Nat.le_add_right _ _⟩
      · apply iff_of_false
        · intro h
          have := h.le
          omega
        · omega

theorem matches_empty_iff : Matches src .empty i j ↔ j = i := by
  constructor
  · rintro ⟨⟩
    rfl
  · rintro rfl
    exact .empty

theorem matches_singleton_iff {b : UInt8} :
    Matches src (.bytes (.singleton b)) i j ↔ j = i + 1 ∧ src[i]? = some b := by
  constructor
  · rintro (_ | ⟨read, member⟩)
    rw [ByteSet.contains_singleton_iff.mp member] at read
    exact ⟨rfl, read⟩
  · rintro ⟨rfl, read⟩
    exact .bytes read (ByteSet.contains_singleton_iff.mpr rfl)

end Regex

/-- What follows a first byte and a run behind it. -/
theorem drop_run {src rest : List UInt8} {b : UInt8} {i : Nat} (p : UInt8 → Bool)
    (remaining : src.drop i = b :: rest) :
    src.drop (i + ((rest.takeWhile p).length + 1)) = rest.dropWhile p := by
  have split : b :: rest = (b :: rest.takeWhile p) ++ rest.dropWhile p := by
    rw [List.cons_append, List.takeWhile_append_dropWhile]
  rw [← List.drop_drop, remaining, split, List.drop_left' (List.length_cons ..)]

namespace Automaton

variable {a : Automaton} {src rest : List UInt8} {i j p : Nat} {b : UInt8} {s : State}

/-- What is seen can be read off the state behind the first byte. -/
theorem sees_iff_of_advance (never : a.quits = .empty) (read : src[i]? = some b)
    (state : a.start.advance (Context.of src i) b = s) (lt : i < j) :
    a.Sees src i j p ↔ ∃ rs, (p, rs) ∈ s ∧ ∃ r ∈ rs, Matches src r (i + 1) j := by
  subst state
  rw [sees_iff_patternMatches never]
  exact ((State.tracks_start a src i).advance read).alive p j lt

/-- A match is found if no expression behind the first byte matches further, and none of an earlier
pattern as far. -/
theorem finds_of_advance (never : a.quits = .empty) (read : src[i]? = some b)
    (state : a.start.advance (Context.of src i) b = s) {m : Match}
    (here : ∃ rs, (m.pattern, rs) ∈ s ∧ ∃ r ∈ rs, Matches src r (i + 1) (i + m.length))
    (longest : ∀ p rs, (p, rs) ∈ s → ∀ r ∈ rs, ∀ j, Matches src r (i + 1) j → j ≤ i + m.length)
    (first : ∀ p rs, (p, rs) ∈ s → ∀ r ∈ rs, Matches src r (i + 1) (i + m.length) →
      m.pattern ≤ p) :
    a.Finds src i m := by
  have sees_iff {j p : Nat} (lt : i < j) := sees_iff_of_advance (p := p) never read state lt
  have pos : i < i + m.length := Nat.lt_add_of_pos_right m.pos
  refine ⟨(sees_iff pos).mpr here, ?_, ?_⟩
  · intro j p sees
    rcases Nat.lt_or_ge i j with lt | ge
    · obtain ⟨rs, mem, r, hr, matched⟩ := (sees_iff lt).mp sees
      exact longest p rs mem r hr j matched
    · omega
  · intro p sees
    obtain ⟨rs, mem, r, hr, matched⟩ := (sees_iff pos).mp sees
    exact first p rs mem r hr matched

/-- Where one pattern is left and has matched, its match is the one byte. -/
theorem finds_byte (never : a.quits = .empty) (read : src[i]? = some b)
    (state : a.start.advance (Context.of src i) b = [(p, [.empty])]) :
    a.Finds src i ⟨p, 1, Nat.one_pos⟩ := by
  refine finds_of_advance never read state ?_ ?_ ?_
  · exact ⟨_, List.mem_singleton.mpr rfl, _, List.mem_singleton.mpr rfl, .empty⟩
  · intro q rs mem r hr j matched
    obtain ⟨rfl, rfl⟩ := Prod.mk.inj (List.mem_singleton.mp mem)
    obtain rfl := List.mem_singleton.mp hr
    exact Nat.le_of_eq (Regex.matches_empty_iff.mp matched)
  · intro q rs mem r hr matched
    exact Nat.le_of_eq (Prod.mk.inj (List.mem_singleton.mp mem)).1.symm

/-- Where one pattern is left and goes on with a repeated set, its match is the whole run. -/
theorem finds_run {set : ByteSet} (never : a.quits = .empty)
    (remaining : src.drop i = b :: rest)
    (state : a.start.advance (Context.of src i) b = [(p, [.repetition (.bytes set) 0 none])]) :
    a.Finds src i ⟨p, (rest.takeWhile set.contains).length + 1, Nat.succ_pos _⟩ := by
  have read : src[i]? = some b := by rw [← List.head?_drop, remaining, List.head?_cons]
  have remaining' := drop_byte remaining
  refine finds_of_advance never read state ?_ ?_ ?_
  · refine ⟨_, List.mem_singleton.mpr rfl, _, List.mem_singleton.mpr rfl, ?_⟩
    refine (Regex.matches_star_iff remaining').mpr ⟨?_, ?_⟩
    all_goals
      dsimp only
      omega
  · intro q rs mem r hr j matched
    obtain ⟨rfl, rfl⟩ := Prod.mk.inj (List.mem_singleton.mp mem)
    obtain rfl := List.mem_singleton.mp hr
    have := ((Regex.matches_star_iff remaining').mp matched).2
    dsimp only
    omega
  · intro q rs mem r hr matched
    exact Nat.le_of_eq (Prod.mk.inj (List.mem_singleton.mp mem)).1.symm

section Pairs

variable {q : Nat} {c : UInt8}

/-- Where one pattern has matched and another one waits for a second byte, the byte decides. -/
theorem finds_pair (never : a.quits = .empty) (read : src[i]? = some b)
    (state : a.start.advance (Context.of src i) b = s)
    (left : ∀ k rs, (k, rs) ∈ s ↔ k = p ∧ rs = [.empty] ∨ k = q ∧ rs = [.bytes (.singleton c)])
    (next : src[i + 1]? = some c) : a.Finds src i ⟨q, 2, Nat.two_pos⟩ := by
  refine finds_of_advance never read state ?_ ?_ ?_
  · refine ⟨_, (left _ _).mpr (.inr ⟨rfl, rfl⟩), _, List.mem_singleton.mpr rfl, ?_⟩
    exact Regex.matches_singleton_iff.mpr ⟨rfl, next⟩
  · intro k rs mem r hr j matched
    obtain ⟨rfl, rfl⟩ | ⟨rfl, rfl⟩ := (left _ _).mp mem
    · obtain rfl := List.mem_singleton.mp hr
      have := Regex.matches_empty_iff.mp matched
      dsimp only
      omega
    · obtain rfl := List.mem_singleton.mp hr
      exact Nat.le_of_eq (Regex.matches_singleton_iff.mp matched).1
  · intro k rs mem r hr matched
    obtain ⟨rfl, rfl⟩ | ⟨rfl, rfl⟩ := (left _ _).mp mem
    · obtain rfl := List.mem_singleton.mp hr
      have := Regex.matches_empty_iff.mp matched
      dsimp only at this
      omega
    · exact Nat.le_refl _

theorem finds_single (never : a.quits = .empty) (read : src[i]? = some b)
    (state : a.start.advance (Context.of src i) b = s)
    (left : ∀ k rs, (k, rs) ∈ s ↔ k = p ∧ rs = [.empty] ∨ k = q ∧ rs = [.bytes (.singleton c)])
    (next : src[i + 1]? ≠ some c) : a.Finds src i ⟨p, 1, Nat.one_pos⟩ := by
  refine finds_of_advance never read state ?_ ?_ ?_
  · exact ⟨_, (left _ _).mpr (.inl ⟨rfl, rfl⟩), _, List.mem_singleton.mpr rfl, .empty⟩
  · intro k rs mem r hr j matched
    obtain ⟨rfl, rfl⟩ | ⟨rfl, rfl⟩ := (left _ _).mp mem
    · obtain rfl := List.mem_singleton.mp hr
      exact Nat.le_of_eq (Regex.matches_empty_iff.mp matched)
    · obtain rfl := List.mem_singleton.mp hr
      exact absurd (Regex.matches_singleton_iff.mp matched).2 next
  · intro k rs mem r hr matched
    obtain ⟨rfl, rfl⟩ | ⟨rfl, rfl⟩ := (left _ _).mp mem
    · exact Nat.le_refl _
    · obtain rfl := List.mem_singleton.mp hr
      exact absurd (Regex.matches_singleton_iff.mp matched).2 next

end Pairs

/-- An automaton that gives up on no byte and is made for it begins a search anywhere. -/
theorem refusal?_eq_none (never : a.quits = .empty) (anchored : a.anchored)
    (before : Option UInt8) : a.refusal? before = none := by
  have free : before.filter a.bars = none := by
    cases before with
    | none => rfl
    | some b => rw [Option.filter_some, bars, never, contains_empty, if_neg Bool.false_ne_true]
  rw [refusal?, free]
  simp only [anchored, if_true]

/-- Where no pattern is left, nothing is seen. -/
theorem unseen_of_advance (never : a.quits = .empty) (read : src[i]? = some b)
    (state : a.start.advance (Context.of src i) b = []) :
    ∀ j p, i < j → ¬ a.Sees src i j p := by
  intro j p lt sees
  obtain ⟨rs, mem, _⟩ := (sees_iff_of_advance never read state lt).mp sees
  cases mem

end Automaton

end TableParsing
