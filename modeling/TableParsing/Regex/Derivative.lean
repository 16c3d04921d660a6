import TableParsing.Regex.Basic

/-!
# Derivatives of regular expressions

Reading one byte turns a regular expression into the list of those that describe what may follow.
Assertions are decided by the two bytes beside the offset, so both the question whether an
expression matches the empty range and its derivatives depend on that context. `matches_self_iff`
and `matches_step_iff` say that together they determine what an expression matches.
-/

namespace TableParsing

namespace Regex

/-- Whether an expression matches the empty range at an offset with the given neighbours. -/
def matchesEmpty (c : Context) : Regex → Bool
  | .nothing => false
  | .empty => true
  | .bytes _ => false
  | .assertion condition => condition.holds c
  | .seq r s => r.matchesEmpty c && s.matchesEmpty c
  | .alt r s => r.matchesEmpty c || s.matchesEmpty c
  | .repetition r least _ => least == 0 || r.matchesEmpty c

/-- The bounds of a repetition that are left after the first copy that reads something, if there may
be one. Where the body matches the empty range, all required copies may stand before that one. -/
def owed (emptyBefore : Bool) (least : Nat) (extra : Option Nat) : Option (Nat × Option Nat) :=
  match least, extra with
  | 0, none => some (0, none)
  | 0, some 0 => none
  | 0, some (n + 1) => some (0, some n)
  | n + 1, extra => if emptyBefore then some (0, extra.map (n + ·)) else some (n, extra)

/-- The expressions that describe what may follow a byte read at an offset with the given
neighbours. -/
def derivatives (c : Context) (b : UInt8) : Regex → List Regex
  | .nothing => []
  | .empty => []
  | .bytes set => if set.contains b then [.empty] else []
  | .assertion _ => []
  | .seq r s =>
    (r.derivatives c b).map (·.followedBy s) ++ if r.matchesEmpty c then s.derivatives c b else []
  | .alt r s => r.derivatives c b ++ s.derivatives c b
  | .repetition r least extra =>
    match owed (r.matchesEmpty c) least extra with
    | none => []
    | some (least, extra) => (r.derivatives c b).map (·.followedBy (.repetition r least extra))

variable {src : List UInt8} {r s : Regex} {i j k : Nat} {b : UInt8}

theorem matches_seq_iff :
    Matches src (.seq r s) i k ↔ ∃ j, Matches src r i j ∧ Matches src s j k := by
  constructor
  · intro h
    cases h with
    | seq first second => exact ⟨_, first, second⟩
  · rintro ⟨j, first, second⟩
    exact .seq first second

theorem matches_alt_iff :
    Matches src (.alt r s) i j ↔ Matches src r i j ∨ Matches src s i j := by
  constructor
  · intro h
    cases h with
    | altLeft left => exact .inl left
    | altRight right => exact .inr right
  · rintro (left | right)
    · exact .altLeft left
    · exact .altRight right

theorem matches_followedBy_iff :
    Matches src (r.followedBy s) i k ↔ ∃ j, Matches src r i j ∧ Matches src s j k := by
  cases r with
  | empty =>
    constructor
    · intro h
      exact ⟨i, .empty, h⟩
    · rintro ⟨j, first, second⟩
      cases first
      exact second
  | _ => exact matches_seq_iff

/-- `Copies src r n i k` says that `n` matches of `r`, one after the other, lead from `i` to `k`. -/
inductive Copies (src : List UInt8) (r : Regex) : Nat → Nat → Nat → Prop where
  | zero {i : Nat} : Copies src r 0 i i
  | succ {n i j k : Nat} (once : Matches src r i j) (more : Copies src r n j k) :
      Copies src r (n + 1) i k

theorem Copies.le {n : Nat} (h : Copies src r n i k) : i ≤ k := by
  induction h with
  | zero => exact Nat.le_refl _
  | succ once _ ih => exact Nat.le_trans once.le ih

/-- Empty copies can be put in front. -/
theorem Copies.pad {n : Nat} (h : Copies src r n i k) (once : Matches src r i i) (m : Nat) :
    Copies src r (m + n) i k := by
  induction m with
  | zero => simpa using h
  | succ m ih =>
    rw [Nat.succ_add]
    exact .succ once ih

theorem Matches.copies_self (once : Matches src r i i) (n : Nat) : Copies src r n i i := by
  simpa using (Copies.zero : Copies src r 0 i i).pad once n

theorem matches_repetition_of_copies {least n : Nat} {extra : Option Nat} (low : least ≤ n)
    (high : ∀ x, extra = some x → n ≤ least + x) (h : Copies src r n i k) :
    Matches src (.repetition r least extra) i k := by
  induction h generalizing least extra with
  | zero =>
    obtain rfl := Nat.le_zero.mp low
    exact .enough
  | @succ n i j k once more ih =>
    cases least with
    | succ least =>
      exact .required once (ih (by omega) fun x hx => by have := high x hx; omega)
    | zero =>
      cases extra with
      | none => exact .further once (ih (Nat.zero_le _) nofun)
      | some x =>
        cases x with
        | zero => have := high 0 rfl; omega
        | succ x =>
          refine .optional once (ih (Nat.zero_le _) fun y hy => ?_)
          obtain rfl := Option.some.inj hy
          have := high (x + 1) rfl
          omega

theorem copies_of_matches_repetition {least : Nat} {extra : Option Nat}
    (h : Matches src (.repetition r least extra) i k) :
    ∃ n, least ≤ n ∧ (∀ x, extra = some x → n ≤ least + x) ∧ Copies src r n i k := by
  generalize hs : Regex.repetition r least extra = t at h
  induction h generalizing least extra with
  | empty | bytes | assertion | seq | altLeft | altRight => cases hs
  | enough =>
    cases hs
    exact ⟨0, Nat.le_refl _, fun _ _ => Nat.zero_le _, .zero⟩
  | required once _ _ ih =>
    cases hs
    obtain ⟨n, low, high, copies⟩ := ih rfl
    exact ⟨n + 1, by omega, fun x hx => by have := high x hx; omega, .succ once copies⟩
  | further once _ _ ih =>
    cases hs
    obtain ⟨n, _, _, copies⟩ := ih rfl
    exact ⟨n + 1, Nat.zero_le _, nofun, .succ once copies⟩
  | optional once _ _ ih =>
    cases hs
    obtain ⟨n, _, high, copies⟩ := ih rfl
    refine ⟨n + 1, Nat.zero_le _, fun x hx => ?_, .succ once copies⟩
    obtain rfl := Option.some.inj hx
    have := high _ rfl
    omega

/-- A repetition matches what a permitted number of copies matches. -/
theorem matches_repetition_iff {least : Nat} {extra : Option Nat} :
    Matches src (.repetition r least extra) i k ↔
      ∃ n, least ≤ n ∧ (∀ x, extra = some x → n ≤ least + x) ∧ Copies src r n i k :=
  ⟨copies_of_matches_repetition, fun ⟨_, low, high, copies⟩ =>
    matches_repetition_of_copies low high copies⟩

/-- An expression matches the empty range exactly where the context says so. -/
theorem matches_self_iff :
    Matches src r i i ↔ r.matchesEmpty (Context.of src i) = true := by
  induction r with
  | nothing =>
    constructor <;> intro h <;> cases h
  | empty => exact ⟨fun _ => rfl, fun _ => .empty⟩
  | bytes set =>
    constructor <;> intro h <;> cases h
  | assertion condition =>
    constructor
    · intro h
      cases h with
      | assertion holds => exact holds
    · exact .assertion
  | seq r s ihr ihs =>
    rw [matches_seq_iff, matchesEmpty, Bool.and_eq_true, ← ihr, ← ihs]
    constructor
    · rintro ⟨j, first, second⟩
      obtain rfl := Nat.le_antisymm first.le second.le
      exact ⟨first, second⟩
    · rintro ⟨first, second⟩
      exact ⟨i, first, second⟩
  | alt r s ihr ihs => rw [matches_alt_iff, matchesEmpty, Bool.or_eq_true, ihr, ihs]
  | repetition r least extra ih =>
    rw [matches_repetition_iff, matchesEmpty, Bool.or_eq_true, beq_iff_eq, ← ih]
    constructor
    · rintro ⟨n, low, _, copies⟩
      cases copies with
      | zero => exact .inl (Nat.le_zero.mp low)
      | succ once more =>
        obtain rfl := Nat.le_antisymm once.le more.le
        exact .inr once
    · rintro (rfl | once)
      · exact ⟨0, Nat.le_refl _, fun _ _ => Nat.zero_le _, .zero⟩
      · exact ⟨least, Nat.le_refl _, fun _ _ => Nat.le_add_right _ _, once.copies_self least⟩

/-- Copies that read something contain a first one that does. If others stand before it, the body
matches the empty range there. -/
theorem Copies.exists_first {n : Nat} (h : Copies src r n i k) (lt : i < k) :
    ∃ m j, i < j ∧ Matches src r i j ∧ Copies src r m j k ∧
      (m + 1 = n ∨ m + 1 < n ∧ Matches src r i i) := by
  induction h with
  | zero => omega
  | @succ n i j k once more ih =>
    rcases Nat.lt_or_ge i j with hij | hij
    · exact ⟨n, j, hij, once, more, .inl rfl⟩
    · obtain rfl := Nat.le_antisymm once.le hij
      obtain ⟨m, j, him, first, rest, bound⟩ := ih lt
      exact ⟨m, j, him, first, rest, .inr ⟨by omega, once⟩⟩

/-- A repetition matches a range that is not empty exactly if its body matches a first part of the
range that is not empty, and what is owed then matches the rest. -/
theorem matches_repetition_iff_owed {least : Nat} {extra : Option Nat} (lt : i < k) :
    Matches src (.repetition r least extra) i k ↔
      ∃ bounds ∈ owed (r.matchesEmpty (Context.of src i)) least extra, ∃ j, i < j ∧
        Matches src r i j ∧ Matches src (.repetition r bounds.1 bounds.2) j k := by
  constructor
  · intro h
    obtain ⟨n, low, high, copies⟩ := matches_repetition_iff.mp h
    obtain ⟨m, j, hij, once, more, bound⟩ := copies.exists_first lt
    cases least with
    | zero =>
      cases extra with
      | none =>
        exact ⟨_, rfl, j, hij, once, matches_repetition_of_copies (Nat.zero_le _) nofun more⟩
      | some x =>
        have := high x rfl
        cases x with
        | zero => omega
        | succ x =>
          refine ⟨_, rfl, j, hij, once,
            matches_repetition_of_copies (Nat.zero_le _) (fun y hy => ?_) more⟩
          obtain rfl := Option.some.inj hy
          omega
    | succ least =>
      by_cases nullable : r.matchesEmpty (Context.of src i) = true
      · refine ⟨(0, extra.map (least + ·)), by simp [owed, nullable], j, hij, once,
          matches_repetition_of_copies (Nat.zero_le _) (fun y hy => ?_) more⟩
        obtain ⟨x, hx, rfl⟩ := Option.map_eq_some_iff.mp hy
        have := high x hx
        omega
      · rcases bound with bound | ⟨_, self⟩
        · refine ⟨(least, extra), by simp [owed, nullable], j, hij, once,
            matches_repetition_of_copies (by omega) (fun y hy => ?_) more⟩
          have := high y hy
          omega
        · exact absurd (matches_self_iff.mp self) nullable
  · rintro ⟨bounds, mem, j, hij, once, more⟩
    obtain ⟨m, low, high, copies⟩ := matches_repetition_iff.mp more
    cases least with
    | zero =>
      cases extra with
      | none => exact matches_repetition_of_copies (Nat.zero_le _) nofun (.succ once copies)
      | some x =>
        cases x with
        | zero => cases mem
        | succ x =>
          cases mem
          refine matches_repetition_of_copies (Nat.zero_le _) (fun y hy => ?_) (.succ once copies)
          obtain rfl := Option.some.inj hy
          have := high x rfl
          omega
    | succ least =>
      by_cases nullable : r.matchesEmpty (Context.of src i) = true
      · simp only [owed, nullable, if_true, Option.mem_def, Option.some.injEq] at mem
        subst mem
        refine matches_repetition_of_copies (n := least - m + (m + 1)) (by omega) (fun x hx => ?_)
          ((Copies.succ once copies).pad (matches_self_iff.mpr nullable) (least - m))
        have := high (least + x) (by rw [hx]; rfl)
        omega
      · simp only [owed, nullable, Bool.false_eq_true, if_false, Option.mem_def,
          Option.some.injEq] at mem
        subst mem
        refine matches_repetition_of_copies (by omega) (fun x hx => ?_) (.succ once copies)
        have := high x hx
        omega

/-- An expression matches a range that begins with a byte exactly if one of its derivatives by that
byte matches the rest of the range. -/
theorem matches_step_iff (read : src[i]? = some b) (lt : i < j) :
    Matches src r i j ↔ ∃ d ∈ r.derivatives (Context.of src i) b, Matches src d (i + 1) j := by
  induction r generalizing j with
  | nothing =>
    simp only [derivatives, List.not_mem_nil, false_and, exists_false, iff_false]
    intro h
    cases h
  | empty =>
    simp only [derivatives, List.not_mem_nil, false_and, exists_false, iff_false]
    intro h
    cases h
    omega
  | bytes set =>
    simp only [derivatives]
    constructor
    · intro h
      cases h with
      | bytes read' member =>
        obtain rfl := Option.some.inj (read.symm.trans read')
        exact ⟨.empty, by simp [member], .empty⟩
    · rintro ⟨d, mem, h⟩
      split at mem
      · next member =>
        obtain rfl := List.mem_singleton.mp mem
        cases h
        exact .bytes read member
      · cases mem
  | assertion condition =>
    simp only [derivatives, List.not_mem_nil, false_and, exists_false, iff_false]
    intro h
    cases h
    omega
  | seq r s ihr ihs =>
    simp only [derivatives, List.mem_append, List.mem_map]
    constructor
    · intro h
      obtain ⟨m, first, second⟩ := matches_seq_iff.mp h
      rcases Nat.lt_or_ge i m with him | him
      · obtain ⟨d, mem, hd⟩ := (ihr him).mp first
        exact ⟨_, .inl ⟨d, mem, rfl⟩, matches_followedBy_iff.mpr ⟨m, hd, second⟩⟩
      · obtain rfl := Nat.le_antisymm first.le him
        obtain ⟨d, mem, hd⟩ := (ihs lt).mp second
        exact ⟨d, .inr (by simp [matches_self_iff.mp first, mem]), hd⟩
    · rintro ⟨d, ⟨e, mem, rfl⟩ | mem, hd⟩
      · obtain ⟨m, he, second⟩ := matches_followedBy_iff.mp hd
        exact .seq ((ihr (Nat.lt_of_lt_of_le (Nat.lt_succ_self i) he.le)).mpr ⟨e, mem, he⟩) second
      · split at mem
        · next nullable =>
          exact .seq (matches_self_iff.mpr nullable) ((ihs lt).mpr ⟨d, mem, hd⟩)
        · cases mem
  | alt r s ihr ihs =>
    simp only [derivatives, List.mem_append, matches_alt_iff, ihr lt, ihs lt, or_and_right,
      exists_or]
  | repetition r least extra ih =>
    rw [matches_repetition_iff_owed lt]
    constructor
    · rintro ⟨bounds, mem, m, him, once, more⟩
      obtain ⟨d, hd, first⟩ := (ih him).mp once
      refine ⟨d.followedBy (.repetition r bounds.1 bounds.2), ?_,
        matches_followedBy_iff.mpr ⟨m, first, more⟩⟩
      simp only [derivatives, Option.mem_def.mp mem, List.mem_map]
      exact ⟨d, hd, rfl⟩
    · rintro ⟨d, mem, hd⟩
      simp only [derivatives] at mem
      split at mem
      · cases mem
      · next least' extra' bounds =>
        obtain ⟨e, he, rfl⟩ := List.mem_map.mp mem
        obtain ⟨m, first, more⟩ := matches_followedBy_iff.mp hd
        have him := Nat.lt_of_lt_of_le (Nat.lt_succ_self i) first.le
        exact ⟨(least', extra'), bounds, m, him, (ih him).mpr ⟨e, he, first⟩, more⟩

end Regex

end TableParsing
