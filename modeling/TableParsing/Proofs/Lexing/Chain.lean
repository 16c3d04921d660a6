import TableParsing.Lexing.Run
import TableParsing.Proofs.Automaton.LongestMatch

/-!
# Lexing as a chain of steps

A step of a lexer takes the longest match at an offset and goes on behind it, in the mode that the
action names. `Chain` is any number of steps, and `Stops` says where and why no step can be taken.
Both are stated without the loop that lexes.

The loop takes the steps one after the other: `lexAt` is a run from the middle of a source, a chain
carries it from its first offset to its last, and there it stops for the cause that `Stops` gives or
finishes. If all modes that can come up have automata, one of the two happens at every offset.
-/

namespace TableParsing

namespace LexAction

variable {T M : Type}

/-- The mode that an action names, if it names one. -/
def target? : LexAction T M → Option M
  | .emitBegin _ m | .begin m => some m
  | _ => none

theorem nextMode_eq (mode : M) (action : LexAction T M) :
    action.nextMode mode = action.target?.getD mode := by
  cases action <;> rfl

end LexAction

namespace LexProgress

variable {T R M : Type} {p : LexProgress T R M}

@[simp] theorem mode_search : p.search.mode = p.mode := rfl

@[simp] theorem tokens_search : p.search.tokens = p.tokens := rfl

@[simp] theorem mode_note {e : LexEvent R M} : (p.note e).mode = p.mode := rfl

@[simp] theorem tokens_note {e : LexEvent R M} : (p.note e).tokens = p.tokens := rfl

@[simp] theorem mode_collect {terminal? : Option T} {span : Span} :
    (p.collect terminal? span).mode = p.mode := by
  cases terminal? <;> rfl

@[simp] theorem tokens_collect {terminal? : Option T} {span : Span} :
    (p.collect terminal? span).tokens = (terminal?.map (⟨·, span⟩)).toList ++ p.tokens := by
  cases terminal? <;> rfl

variable [DecidableEq M]

@[simp] theorem mode_enter {mode : M} : (p.enter mode).mode = mode := by
  unfold enter
  split
  · next same => exact same.symm
  · rfl

@[simp] theorem tokens_enter {mode : M} : (p.enter mode).tokens = p.tokens := by
  unfold enter
  split <;> rfl

theorem perform_reject {reason : String} {span : Span} :
    p.perform (.reject reason) span = .error (.rejected reason span.start) := rfl

/-- An action that is not to fail collects its range and goes on in its mode. -/
theorem perform_eq_ok {action : LexAction T M} {span : Span}
    (allowed : ∀ reason, action ≠ .reject reason) :
    p.perform action span =
      .ok ((p.collect action.terminal? span).enter (action.nextMode p.mode)) := by
  cases action with
  | reject reason => exact absurd rfl (allowed reason)
  | emit | emitBegin | skip | begin => rfl

end LexProgress

/-- In a mode, a pattern matched a range of the source. -/
structure LexStep (M : Type) where
  mode : M
  pattern : Nat
  span : Span

namespace LexStep

variable {M : Type}

def ofMatch (mode : M) (offset : Nat) (m : Match) : LexStep M :=
  ⟨mode, m.pattern, ⟨offset, offset + m.length⟩⟩

end LexStep

namespace Lexer

variable {T R M : Type}

section Steps

variable [Entry M]

/-- There is an automaton for the start mode and for every mode that an action names. -/
structure Covered (lexer : Lexer T R M) : Prop where
  start : (lexer.automata[Entry.index lexer.tables.startMode]?).isSome
  named : ∀ mode rule target, (lexer.tables.action mode rule).target? = some target →
    (lexer.automata[Entry.index target]?).isSome

def actionOf (lexer : Lexer T R M) (s : LexStep M) : LexAction T M :=
  lexer.tables.action s.mode (lexer.tables.rule s.mode s.pattern)

def endAction (lexer : Lexer T R M) (mode : M) : LexAction T M :=
  lexer.tables.action mode lexer.tables.endRule

/-- In a mode, the search at an offset can begin and finds a match. -/
def Takes (lexer : Lexer T R M) (src : Source) (mode : M) (offset : Nat) (m : Match) : Prop :=
  ∃ a, lexer.automata[Entry.index mode]? = some a ∧
    a.refusal? (Context.of src.toList offset).before = none ∧ a.Finds src.toList offset m

/-- Steps that lead from a mode and an offset to another mode and offset. No action of theirs is to
fail. -/
inductive Chain (lexer : Lexer T R M) (src : Source) :
    M → Nat → List (LexStep M) → M → Nat → Prop where
  | nil {mode : M} {offset : Nat} : Chain lexer src mode offset [] mode offset
  | cons {mode mode' : M} {offset stop : Nat} {m : Match} {steps : List (LexStep M)}
      (takes : lexer.Takes src mode offset m)
      (allowed : ∀ reason, lexer.actionOf (.ofMatch mode offset m) ≠ .reject reason)
      (rest : Chain lexer src ((lexer.actionOf (.ofMatch mode offset m)).nextMode mode)
        (offset + m.length) steps mode' stop) :
      Chain lexer src mode offset (.ofMatch mode offset m :: steps) mode' stop

/-- Why no step can be taken at an offset: the search cannot begin, nothing is found, or the action
is to fail. At the end of the source only the last can be. -/
inductive Stops (lexer : Lexer T R M) (src : Source) (mode : M) (offset : Nat) :
    LexFailure → Prop where
  | refused {a : Automaton} {refusal : SearchRefusal} (inside : offset < src.size)
      (automaton : lexer.automata[Entry.index mode]? = some a)
      (cannot : a.refusal? (Context.of src.toList offset).before = some refusal) :
      Stops lexer src mode offset (.refused refusal offset)
  | unmatched {a : Automaton} {b : UInt8} (automaton : lexer.automata[Entry.index mode]? = some a)
      (begins : a.refusal? (Context.of src.toList offset).before = none)
      (read : src[offset]? = some b)
      (unseen : ∀ j p, offset < j → ¬ a.Sees src.toList offset j p) :
      Stops lexer src mode offset (.unmatched b offset)
  | rejected {m : Match} {reason : String} (takes : lexer.Takes src mode offset m)
      (action : lexer.actionOf (.ofMatch mode offset m) = .reject reason) :
      Stops lexer src mode offset (.rejected reason offset)
  | rejectedEnd {reason : String} (atEnd : offset = src.size)
      (action : lexer.endAction mode = .reject reason) :
      Stops lexer src mode offset (.rejected reason offset)

variable {lexer : Lexer T R M} {src : Source} {mode mode' : M} {offset stop : Nat} {m m' : Match}
variable {steps steps' : List (LexStep M)}

theorem Takes.le_size (h : lexer.Takes src mode offset m) : offset + m.length ≤ src.size := by
  obtain ⟨a, _, _, finds⟩ := h
  simpa using finds.le_length

theorem Takes.lt_size (h : lexer.Takes src mode offset m) : offset < src.size :=
  Nat.lt_of_lt_of_le (Nat.lt_add_of_pos_right m.pos) h.le_size

theorem Takes.unique (h : lexer.Takes src mode offset m) (h' : lexer.Takes src mode offset m') :
    m = m' := by
  obtain ⟨a, automaton, _, finds⟩ := h
  obtain ⟨a', automaton', _, finds'⟩ := h'
  obtain rfl := Option.some.inj (automaton.symm.trans automaton')
  exact finds.unique finds'

theorem Chain.le_stop (h : lexer.Chain src mode offset steps mode' stop) : offset ≤ stop := by
  induction h with
  | nil => exact Nat.le_refl _
  | cons _ _ _ ih => omega

/-- There is one chain to the end of the source. -/
theorem Chain.unique {mode'' : M} (h : lexer.Chain src mode offset steps mode' src.size)
    (h' : lexer.Chain src mode offset steps' mode'' src.size) :
    steps = steps' ∧ mode' = mode'' := by
  generalize reached : src.size = stop at h
  induction h generalizing steps' with
  | nil =>
      subst reached
      cases h' with
      | nil => exact ⟨rfl, rfl⟩
      | cons takes => exact absurd takes.lt_size (Nat.lt_irrefl _)
  | cons takes _ rest ih =>
      cases h' with
      | nil => exact absurd takes.lt_size (Nat.lt_irrefl _)
      | cons takes' _ rest' =>
          obtain rfl := takes.unique takes'
          obtain ⟨rfl, rfl⟩ := ih rest' reached
          exact ⟨rfl, rfl⟩

end Steps

section Runs

def tokenOf? (lexer : Lexer T R M) (s : LexStep M) : Option (Token T) :=
  (lexer.actionOf s).terminal?.map (⟨·, s.span⟩)

def endToken? (lexer : Lexer T R M) (mode : M) (offset : Nat) : Option (Token T) :=
  (lexer.endAction mode).terminal?.map (⟨·, .empty offset⟩)

variable [DecidableEq M]

/-- How far a run has come after a step. -/
def after (lexer : Lexer T R M) (p : LexProgress T R M) (s : LexStep M) : LexProgress T R M :=
  let noted := p.search.note (.matched s.mode (lexer.tables.rule s.mode s.pattern) s.pattern s.span)
  (noted.collect (lexer.actionOf s).terminal? s.span).enter ((lexer.actionOf s).nextMode s.mode)

/-- How far a run has come when it finishes. -/
def afterEnd (lexer : Lexer T R M) (p : LexProgress T R M) (offset : Nat) : LexProgress T R M :=
  (p.collect (lexer.endAction p.mode).terminal? (.empty offset)).enter
    ((lexer.endAction p.mode).nextMode p.mode)

variable {lexer : Lexer T R M} {p : LexProgress T R M} {s : LexStep M}

@[simp] theorem mode_after :
    (lexer.after p s).mode = (lexer.actionOf s).nextMode s.mode := by
  simp [after]

@[simp] theorem tokens_after :
    (lexer.after p s).tokens = (lexer.tokenOf? s).toList ++ p.tokens := by
  simp [after, tokenOf?]

@[simp] theorem tokens_afterEnd {offset : Nat} :
    (lexer.afterEnd p offset).tokens = (lexer.endToken? p.mode offset).toList ++ p.tokens := by
  simp [afterEnd, endToken?]

/-- Inside the source there is a next byte. -/
theorem exists_rest {src : Source} {offset : Nat} (inside : offset < src.size) :
    ∃ b rest, src.toList.drop offset = b :: rest ∧ src[offset]? = some b := by
  have bound : offset < src.toList.length := by simpa using inside
  refine ⟨src[offset], src.toList.drop (offset + 1), ?_, Array.getElem?_eq_getElem inside⟩
  rw [List.drop_eq_getElem_cons bound, Array.getElem_toList]

/-- The byte in front of what follows a match is the last one of the match. -/
theorem before_add {bytes rest : List UInt8} {offset length : Nat} (pos : 0 < length)
    (remaining : bytes.drop offset = rest) :
    (Context.of bytes (offset + length)).before = rest[length - 1]? := by
  have moved : offset + length ≠ 0 := by omega
  have last : offset + length - 1 = offset + (length - 1) := by omega
  rw [Context.of, ← remaining, List.getElem?_drop, if_neg moved, last]

variable [Entry M] {src : Source} {mode mode' : M} {offset stop : Nat} {m : Match}
variable {steps : List (LexStep M)}

/-- The run over the rest of a source, from an offset. -/
def lexAt (lexer : Lexer T R M) (src : Source) (p : LexProgress T R M) (offset : Nat) :
    LexRun T R M :=
  lexer.lexFrom p (Context.of src.toList offset).before offset (src.toList.drop offset)

theorem lex_eq_lexAt (lexer : Lexer T R M) (src : Source) :
    lexer.lex src = lexer.lexAt src { mode := lexer.tables.startMode } 0 := rfl

omit [DecidableEq M] in
theorem match?_of_takes {b : UInt8} {rest : List UInt8}
    (remaining : src.toList.drop offset = b :: rest) (takes : lexer.Takes src mode offset m) :
    lexer.match? mode (Context.of src.toList offset).before offset b rest = .ok m := by
  have inside := Nat.le_of_lt takes.lt_size
  obtain ⟨a, automaton, begins, finds⟩ := takes
  have found := (Automaton.longestMatch?_eq_some_iff (by simpa using inside)).mpr finds
  rw [remaining] at found
  simp only [match?, automaton, Automaton.start_of_begins begins, found]

/-- The loop takes the step that can be taken. -/
theorem lexAt_of_takes (takes : lexer.Takes src p.mode offset m)
    (allowed : ∀ reason, lexer.actionOf (.ofMatch p.mode offset m) ≠ .reject reason) :
    lexer.lexAt src p offset =
      lexer.lexAt src (lexer.after p (.ofMatch p.mode offset m)) (offset + m.length) := by
  obtain ⟨b, rest, remaining, _⟩ := exists_rest takes.lt_size
  have search := match?_of_takes remaining takes
  have rest' : src.toList.drop (offset + m.length) = (b :: rest).drop m.length := by
    rw [← remaining, List.drop_drop]
  rw [lexAt, lexAt, remaining, lexFrom, before_add m.pos remaining, rest']
  simp only [LexProgress.mode_search, search, LexProgress.mode_note]
  generalize noted : LexProgress.note p.search _ = q
  have performed : q.perform (lexer.tables.action p.mode (lexer.tables.rule p.mode m.pattern))
      ⟨offset, offset + m.length⟩ = .ok _ := LexProgress.perform_eq_ok allowed
  rw [performed]
  subst noted
  rfl

/-- A chain carries the loop to its end. -/
theorem Chain.lexAt_eq (h : lexer.Chain src mode offset steps mode' stop) (here : p.mode = mode) :
    lexer.lexAt src p offset = lexer.lexAt src (steps.foldl lexer.after p) stop := by
  induction h generalizing p with
  | nil => rfl
  | cons takes allowed rest ih =>
      subst here
      rw [lexAt_of_takes takes allowed, ih mode_after, List.foldl_cons]

omit [Entry M] in
theorem tokens_foldl_after (steps : List (LexStep M)) (p : LexProgress T R M) :
    (steps.foldl lexer.after p).tokens = (steps.filterMap lexer.tokenOf?).reverse ++ p.tokens := by
  induction steps generalizing p with
  | nil => rfl
  | cons s steps ih =>
      rw [List.foldl_cons, ih, tokens_after]
      cases token : lexer.tokenOf? s <;> simp [token]

theorem Chain.mode_foldl_after (h : lexer.Chain src mode offset steps mode' stop)
    (here : p.mode = mode) : (steps.foldl lexer.after p).mode = mode' := by
  induction h generalizing p with
  | nil => exact here
  | cons takes allowed rest ih => exact ih mode_after

/-- The loop stops where no step can be taken, for the cause that there is. Inside the source it has
then searched once more. -/
theorem exists_lexAt_of_stops {f : LexFailure} (stops : lexer.Stops src p.mode offset f) :
    ∃ q, lexer.lexAt src p offset = ⟨q, some f⟩ ∧
      q.counters = if offset < src.size then p.search.counters else p.counters := by
  cases stops with
  | refused inside automaton cannot =>
      obtain ⟨b, rest, remaining, _⟩ := exists_rest inside
      refine ⟨p.search, ?_, (if_pos inside).symm⟩
      rw [lexAt, remaining, lexFrom]
      simp only [LexProgress.mode_search, match?, automaton, Automaton.start_of_refusal cannot]
  | unmatched automaton begins read unseen =>
      have inside := (Array.getElem?_eq_some_iff.mp read).1
      obtain ⟨b, rest, remaining, read'⟩ := exists_rest inside
      obtain rfl := Option.some.inj (read.symm.trans read')
      have missing :=
        (Automaton.longestMatch?_eq_none_iff (by simpa using Nat.le_of_lt inside)).mpr unseen
      rw [remaining] at missing
      refine ⟨p.search, ?_, (if_pos inside).symm⟩
      rw [lexAt, remaining, lexFrom]
      simp only [LexProgress.mode_search, match?, automaton, Automaton.start_of_begins begins,
        missing]
  | @rejected m reason takes action =>
      obtain ⟨b, rest, remaining, _⟩ := exists_rest takes.lt_size
      have search := match?_of_takes remaining takes
      have action' : lexer.tables.action p.mode (lexer.tables.rule p.mode m.pattern) =
          .reject reason := action
      refine ⟨p.search.note (.matched p.mode (lexer.tables.rule p.mode m.pattern) m.pattern
        ⟨offset, offset + m.length⟩), ?_, (if_pos takes.lt_size).symm⟩
      rw [lexAt, remaining, lexFrom]
      simp only [LexProgress.mode_search, search, LexProgress.mode_note, action',
        LexProgress.perform_reject]
  | rejectedEnd atEnd action =>
      have remaining : src.toList.drop offset = [] := by simp [atEnd]
      have action' : lexer.tables.action p.mode lexer.tables.endRule = _ := action
      refine ⟨p, ?_, (if_neg (Nat.not_lt.mpr (Nat.le_of_eq atEnd.symm))).symm⟩
      rw [lexAt, remaining, lexFrom]
      simp only [finish, action', LexProgress.perform_reject, Span.empty]

/-- At the end of the source the loop finishes, unless the action there is to fail. -/
theorem lexAt_of_end (allowed : ∀ reason, lexer.endAction p.mode ≠ .reject reason) :
    lexer.lexAt src p src.size = ⟨lexer.afterEnd p src.size, none⟩ := by
  have remaining : src.toList.drop src.size = [] := by simp
  have performed : p.perform (lexer.tables.action p.mode lexer.tables.endRule)
      (.empty src.size) = .ok _ := LexProgress.perform_eq_ok allowed
  rw [lexAt, remaining, lexFrom]
  simp only [finish, performed]
  rfl

omit [DecidableEq M] in
/-- Where there is an automaton, a step can be taken or there is a cause for which none can. -/
theorem exists_takes_or_stops (has : (lexer.automata[Entry.index mode]?).isSome)
    (inside : offset < src.size) :
    (∃ m, lexer.Takes src mode offset m) ∨ ∃ f, lexer.Stops src mode offset f := by
  obtain ⟨a, automaton⟩ := Option.isSome_iff_exists.mp has
  have bound : offset ≤ src.toList.length := by simpa using Nat.le_of_lt inside
  cases begins : a.refusal? (Context.of src.toList offset).before with
  | some refusal => exact .inr ⟨_, .refused inside automaton begins⟩
  | none =>
      cases found : Machine.longestMatch? a (a.begin (Context.of src.toList offset).before)
          (src.toList.drop offset) with
      | some m =>
          exact .inl ⟨m, a, automaton, begins,
            (Automaton.longestMatch?_eq_some_iff bound).mp found⟩
      | none =>
          exact .inr ⟨_, .unmatched automaton begins (Array.getElem?_eq_getElem inside)
            ((Automaton.longestMatch?_eq_none_iff bound).mp found)⟩

omit [DecidableEq M] in
theorem Covered.nextMode (covered : lexer.Covered) {action : LexAction T M} {rule : R}
    (has : (lexer.automata[Entry.index mode]?).isSome)
    (here : lexer.tables.action mode rule = action) :
    (lexer.automata[Entry.index (action.nextMode mode)]?).isSome := by
  rw [LexAction.nextMode_eq]
  cases target : action.target? with
  | none => exact has
  | some m => exact covered.named mode rule m (here ▸ target)

omit [DecidableEq M] in
/-- A chain stays among modes that have automata. -/
theorem Covered.of_chain (covered : lexer.Covered)
    (h : lexer.Chain src mode offset steps mode' stop)
    (has : (lexer.automata[Entry.index mode]?).isSome) :
    (lexer.automata[Entry.index mode']?).isSome := by
  induction h with
  | nil => exact has
  | cons _ _ _ ih => exact ih (covered.nextMode has rfl)

/-- In a mode without an automaton nothing is matched. -/
theorem exists_lexAt_of_missing (missing : lexer.automata[Entry.index p.mode]? = none)
    (inside : offset < src.size) :
    ∃ b, src[offset]? = some b ∧
      lexer.lexAt src p offset = ⟨p.search, some (.unmatched b offset)⟩ := by
  obtain ⟨b, rest, remaining, read⟩ := exists_rest inside
  refine ⟨b, read, ?_⟩
  rw [lexAt, remaining, lexFrom]
  simp only [LexProgress.mode_search, match?, missing]

omit [DecidableEq M] in
/-- Steps lead to the end of the source, or to a place where there is a cause to stop or no
automaton to go on with. -/
theorem exists_chain (lexer : Lexer T R M) (offset : Nat) (mode : M) (le : offset ≤ src.size) :
    ∃ steps mode' stop, lexer.Chain src mode offset steps mode' stop ∧
      ((stop = src.size ∧ ∀ reason, lexer.endAction mode' ≠ .reject reason) ∨
        (∃ f, lexer.Stops src mode' stop f) ∨
        (stop < src.size ∧ lexer.automata[Entry.index mode']? = none)) := by
  rcases Nat.lt_or_eq_of_le le with inside | rfl
  · cases automaton : lexer.automata[Entry.index mode]? with
    | none => exact ⟨[], mode, offset, .nil, .inr (.inr ⟨inside, automaton⟩)⟩
    | some a =>
        rcases exists_takes_or_stops (Option.isSome_of_eq_some automaton) inside with
          ⟨m, takes⟩ | stops
        · by_cases rejected : ∃ reason, lexer.actionOf (.ofMatch mode offset m) = .reject reason
          · obtain ⟨reason, action⟩ := rejected
            exact ⟨[], mode, offset, .nil, .inr (.inl ⟨_, .rejected takes action⟩)⟩
          · have allowed : ∀ reason, lexer.actionOf (.ofMatch mode offset m) ≠ .reject reason :=
              fun reason action => rejected ⟨reason, action⟩
            have pos := m.pos
            obtain ⟨steps, mode', stop, rest, ends⟩ := exists_chain lexer (offset + m.length)
              ((lexer.actionOf (.ofMatch mode offset m)).nextMode mode) takes.le_size
            exact ⟨_, mode', stop, .cons takes allowed rest, ends⟩
        · exact ⟨[], mode, offset, .nil, .inr (.inl stops)⟩
  · by_cases rejected : ∃ reason, lexer.endAction mode = .reject reason
    · obtain ⟨reason, action⟩ := rejected
      exact ⟨[], mode, _, .nil, .inr (.inl ⟨_, .rejectedEnd rfl action⟩)⟩
    · exact ⟨[], mode, _, .nil, .inl ⟨rfl, fun reason action => rejected ⟨reason, action⟩⟩⟩
termination_by src.size - offset

omit [DecidableEq M] in
/-- If all modes that can come up have automata, steps lead to the end of the source or to a place
where there is a cause to stop. -/
theorem Covered.exists_chain (covered : lexer.Covered) (offset : Nat) (mode : M)
    (has : (lexer.automata[Entry.index mode]?).isSome) (le : offset ≤ src.size) :
    ∃ steps mode' stop, lexer.Chain src mode offset steps mode' stop ∧
      ((stop = src.size ∧ ∀ reason, lexer.endAction mode' ≠ .reject reason) ∨
        ∃ f, lexer.Stops src mode' stop f) := by
  obtain ⟨steps, mode', stop, chain, finishes | stops | ⟨_, missing⟩⟩ :=
    lexer.exists_chain offset mode le
  · exact ⟨steps, mode', stop, chain, .inl finishes⟩
  · exact ⟨steps, mode', stop, chain, .inr stops⟩
  · have found := covered.of_chain chain has
    rw [missing] at found
    cases found

end Runs

end Lexer

end TableParsing
