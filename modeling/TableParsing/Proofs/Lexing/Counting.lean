import TableParsing.Proofs.Lexing.Accounting

/-!
# What the counters of a lexer count

A run of lexing is a chain of steps with an end: the action at the end of the source is performed
or is to fail, or somewhere inside the source a search finds nothing that may be performed. `Course`
lists the ends, each with the actions performed until then, the number of searches, and the offset
that is reached.

The counters tell just these: how many searches there were, how many of the actions append a token,
and how many name another mode than the one they are performed in. What is skipped and what is
appended add up to the offset. So it is for every run, whether its tokens are returned or not, and
whatever has been counted before.
-/

namespace TableParsing

/-- An action that is performed on a range, in a mode. -/
structure Performed (T M : Type) where
  mode : M
  action : LexAction T M
  span : Span

namespace Performed

variable {T M : Type}

def token? (a : Performed T M) : Option (Token T) := a.action.terminal?.map (⟨·, a.span⟩)

def emits (a : Performed T M) : Bool := a.action.terminal?.isSome

def switches [DecidableEq M] (a : Performed T M) : Bool := a.action.nextMode a.mode ≠ a.mode

theorem isSome_token? (a : Performed T M) : a.token?.isSome = a.emits :=
  Option.isSome_map

def covered (done : List (Performed T M)) : Nat :=
  ((done.filterMap token?).map (·.span.length)).sum

theorem covered_append (done done' : List (Performed T M)) :
    covered (done ++ done') = covered done + covered done' := by
  simp only [covered, List.filterMap_append, List.map_append, List.sum_append]

/-- As many tokens are appended as there are actions that append one. -/
theorem length_tokens (done : List (Performed T M)) :
    (done.filterMap token?).length = done.countP emits := by
  rw [List.length_filterMap_eq_countP]
  simp only [isSome_token?]

end Performed

/-- What performing actions and searching for matches adds to counters, apart from what is
skipped. -/
structure Counted {T M : Type} [DecidableEq M] (done : List (Performed T M)) (searches : Nat)
    (before after : LexCounters) : Prop where
  searches : after.searches = before.searches + searches
  tokens : after.tokens = before.tokens + done.countP Performed.emits
  modeSwitches : after.modeSwitches = before.modeSwitches + done.countP Performed.switches

namespace Counted

variable {T M : Type} [DecidableEq M] {done done' : List (Performed T M)} {n n' : Nat}
variable {c c' c'' : LexCounters}

theorem nil (c : LexCounters) : Counted (T := T) (M := M) [] 0 c c := ⟨rfl, rfl, rfl⟩

theorem append (h : Counted done n c c') (h' : Counted done' n' c' c'') :
    Counted (done ++ done') (n + n') c c'' := by
  constructor
  · rw [h'.searches, h.searches, Nat.add_assoc]
  · rw [h'.tokens, h.tokens, List.countP_append, Nat.add_assoc]
  · rw [h'.modeSwitches, h.modeSwitches, List.countP_append, Nat.add_assoc]

/-- Counting can begin at any counters. -/
theorem countedOn (h : Counted done n {} c) (earlier : LexCounters) :
    Counted done n earlier (earlier + c) := by
  constructor
  · exact congrArg (earlier.searches + ·) (h.searches.trans (Nat.zero_add _))
  · exact congrArg (earlier.tokens + ·) (h.tokens.trans (Nat.zero_add _))
  · exact congrArg (earlier.modeSwitches + ·) (h.modeSwitches.trans (Nat.zero_add _))

end Counted

namespace LexProgress

variable {T R M : Type} [DecidableEq M]

theorem counted_search (p : LexProgress T R M) :
    Counted (T := T) (M := M) [] 1 p.counters p.search.counters := ⟨rfl, rfl, rfl⟩

/-- To perform an action counts a token if it appends one, and a switch if it leads to another
mode. -/
theorem counted_perform (p : LexProgress T R M) (action : LexAction T M) (span : Span) :
    Counted [⟨p.mode, action, span⟩] 0 p.counters
      ((p.collect action.terminal? span).enter (action.nextMode p.mode)).counters := by
  constructor
  · unfold enter
    cases action.terminal? <;> split <;> rfl
  · rw [List.countP_singleton, Performed.emits]
    unfold enter
    cases action.terminal? <;> split <;> rfl
  · rw [List.countP_singleton, Performed.switches]
    by_cases same : action.nextMode p.mode = p.mode
    · cases action.terminal? <;> simp [collect, enter, same]
    · cases action.terminal? <;> simp [collect, enter, same]

end LexProgress

theorem LexRun.lexer_record {T R M : Type} (run : LexRun T R M) (src : Source)
    (d : Diagnostics) : (run.record src d).lexer = d.lexer + run.progress.counters := by
  unfold record
  cases run.failure? <;> rfl

namespace Lexer

variable {T R M : Type}

section Steps

variable [Entry M]

def performed (lexer : Lexer T R M) (s : LexStep M) : Performed T M :=
  ⟨s.mode, lexer.actionOf s, s.span⟩

def performedAtEnd (lexer : Lexer T R M) (src : Source) (mode : M) : Performed T M :=
  ⟨mode, lexer.endAction mode, .empty src.size⟩

/-- How a run ends: with what failure if it fails, after performing what, after how many searches,
and at which offset. A search that finds nothing to perform is one of them. -/
inductive Course (lexer : Lexer T R M) (src : Source) :
    Option LexFailure → List (Performed T M) → Nat → Nat → Prop where
  | finished {steps : List (LexStep M)} {mode : M} (completes : lexer.Completes src steps mode) :
      Course lexer src none (steps.map lexer.performed ++ [lexer.performedAtEnd src mode])
        steps.length src.size
  | rejectedEnd {steps : List (LexStep M)} {mode : M} {reason : String}
      (chain : lexer.Chain src lexer.tables.startMode 0 steps mode src.size)
      (action : lexer.endAction mode = .reject reason) :
      Course lexer src (some (.rejected reason src.size)) (steps.map lexer.performed)
        steps.length src.size
  | unmatched {steps : List (LexStep M)} {mode : M} {stop : Nat} {b : UInt8}
      (chain : lexer.Chain src lexer.tables.startMode 0 steps mode stop)
      (read : src[stop]? = some b) (nothing : ∀ m, ¬ lexer.Takes src mode stop m) :
      Course lexer src (some (.unmatched b stop)) (steps.map lexer.performed)
        (steps.length + 1) stop
  | rejected {steps : List (LexStep M)} {mode : M} {stop : Nat} {m : Match} {reason : String}
      (chain : lexer.Chain src lexer.tables.startMode 0 steps mode stop)
      (takes : lexer.Takes src mode stop m)
      (action : lexer.actionOf (.ofMatch mode stop m) = .reject reason) :
      Course lexer src (some (.rejected reason stop)) (steps.map lexer.performed)
        (steps.length + 1) stop
  | refused {steps : List (LexStep M)} {mode : M} {stop : Nat} {a : Automaton}
      {refusal : SearchRefusal}
      (chain : lexer.Chain src lexer.tables.startMode 0 steps mode stop) (inside : stop < src.size)
      (automaton : lexer.automata[Entry.index mode]? = some a)
      (cannot : a.refusal? (Context.of src.toList stop).before = some refusal) :
      Course lexer src (some (.refused refusal stop)) (steps.map lexer.performed)
        (steps.length + 1) stop

end Steps

variable {lexer : Lexer T R M}

theorem filterMap_performed (steps : List (LexStep M)) :
    (steps.map lexer.performed).filterMap Performed.token? = steps.filterMap lexer.tokenOf? :=
  List.filterMap_map

theorem filterMap_performedAtEnd (src : Source) (mode : M) :
    [lexer.performedAtEnd src mode].filterMap Performed.token? =
      (lexer.endToken? mode src.size).toList := by
  rw [List.filterMap_cons, List.filterMap_nil, endToken?, performedAtEnd, Performed.token?]
  cases (lexer.endAction mode).terminal? <;> rfl

variable [DecidableEq M] {p : LexProgress T R M}

/-- What has been performed and searched, and the offset that is reached, account for counters that
began at zero. -/
structure Explains (done : List (Performed T M)) (searches stop : Nat) (c : LexCounters) : Prop
    where
  counted : Counted done searches {} c
  bytes : c.skipped + Performed.covered done = stop

variable {done : List (Performed T M)} {searches stop : Nat}

/-- A search in vain is one search more. -/
theorem Explains.search (h : Explains done searches stop p.counters) :
    Explains done (searches + 1) stop p.search.counters := by
  refine ⟨?_, h.bytes⟩
  have both := h.counted.append p.counted_search
  rwa [List.append_nil] at both

/-- A step counts one search and what it performs. -/
theorem counted_after (s : LexStep M) (here : p.mode = s.mode) :
    Counted [lexer.performed s] 1 p.counters (lexer.after p s).counters := by
  have acts := LexProgress.counted_perform
    (p.search.note (.matched s.mode (lexer.tables.rule s.mode s.pattern) s.pattern s.span))
    (lexer.actionOf s) s.span
  rw [LexProgress.mode_note, LexProgress.mode_search, here] at acts
  exact p.counted_search.append acts

/-- The action at the end is performed without a search, on no bytes. -/
theorem Explains.afterEnd {mode : M} (h : Explains done searches stop p.counters)
    (here : p.mode = mode) (src : Source) :
    Explains (done ++ [lexer.performedAtEnd src mode]) searches stop
      (lexer.afterEnd p src.size).counters := by
  subst here
  refine ⟨h.counted.append (LexProgress.counted_perform p _ _), ?_⟩
  have skipped : (lexer.afterEnd p src.size).counters.skipped = p.counters.skipped := by
    unfold Lexer.afterEnd LexProgress.enter
    cases (lexer.endAction p.mode).terminal? <;> split <;>
      simp [LexProgress.collect, Span.empty, Span.length]
  have nothing : Performed.covered [lexer.performedAtEnd src p.mode] = 0 := by
    rw [Performed.covered, filterMap_performedAtEnd, endToken?]
    cases (lexer.endAction p.mode).terminal? with
    | none => rfl
    | some t => exact Nat.sub_self src.size
  rw [skipped, Performed.covered_append, nothing, Nat.add_zero]
  exact h.bytes

variable [Entry M] {src : Source} {mode mode' : M} {offset : Nat} {steps : List (LexStep M)}

/-- A chain counts its steps. -/
theorem Chain.counted (h : lexer.Chain src mode offset steps mode' stop) (here : p.mode = mode) :
    Counted (steps.map lexer.performed) steps.length p.counters
      (steps.foldl lexer.after p).counters := by
  induction h generalizing p with
  | nil => exact .nil _
  | @cons mode _ offset _ m steps _ _ _ ih =>
      have first : Counted [lexer.performed (.ofMatch mode offset m)] 1 p.counters _ :=
        counted_after _ here
      have all := first.append (ih mode_after)
      rw [Nat.add_comm] at all
      exact all

/-- The steps of a chain from the beginning explain what is counted on the way. -/
theorem Chain.explains (h : lexer.Chain src lexer.tables.startMode 0 steps mode stop) :
    Explains (steps.map lexer.performed) steps.length stop
      (steps.foldl lexer.after { mode := lexer.tables.startMode }).counters := by
  let start : LexProgress T R M := { mode := lexer.tables.startMode }
  refine ⟨h.counted (p := start) rfl, ?_⟩
  have all := h.accounted start
  rw [Performed.covered, filterMap_performed]
  simpa [LexProgress.accounted, tokens_foldl_after, List.map_reverse, start] using all

/-- Where a chain stops inside the source there is a failure, which the chain and one more search
explain; at the end of the source no search is made. -/
theorem Chain.exists_course {f : LexFailure}
    (h : lexer.Chain src lexer.tables.startMode 0 steps mode stop)
    (stops : lexer.Stops src mode stop f) :
    ∃ done searches, Course lexer src (lexer.lex src).failure? done searches stop ∧
      Explains done searches stop (lexer.lex src).progress.counters := by
  have reached := h.mode_foldl_after (p := { mode := lexer.tables.startMode }) rfl
  obtain ⟨q, run, counters⟩ := exists_lexAt_of_stops (reached.symm ▸ stops)
  rw [lex_eq_lexAt, h.lexAt_eq rfl, run, counters]
  cases stops with
  | refused inside automaton cannot =>
      rw [if_pos inside]
      exact ⟨_, _, .refused h inside automaton cannot, h.explains.search⟩
  | unmatched automaton begins read unseen =>
      rw [if_pos (Array.getElem?_eq_some_iff.mp read).1]
      refine ⟨_, _, .unmatched h read ?_, h.explains.search⟩
      rintro m ⟨a, automaton', -, finds⟩
      obtain rfl := Option.some.inj (automaton.symm.trans automaton')
      exact unseen _ _ (Nat.lt_add_of_pos_right m.pos) finds.matched
  | rejected takes action =>
      rw [if_pos takes.lt_size]
      exact ⟨_, _, .rejected h takes action, h.explains.search⟩
  | rejectedEnd atEnd action =>
      subst atEnd
      rw [if_neg (Nat.lt_irrefl _)]
      exact ⟨_, _, .rejectedEnd h action, h.explains⟩

/-- Every run takes one of the courses, which explains its counters. -/
theorem exists_course (lexer : Lexer T R M) (src : Source) :
    ∃ done searches stop, Course lexer src (lexer.lex src).failure? done searches stop ∧
      Explains done searches stop (lexer.lex src).progress.counters := by
  obtain ⟨steps, mode, stop, chain, ⟨rfl, allowed⟩ | ⟨f, stops⟩ | ⟨inside, missing⟩⟩ :=
    lexer.exists_chain 0 lexer.tables.startMode (Nat.zero_le src.size)
  · have completes : lexer.Completes src steps mode := ⟨chain, allowed⟩
    rw [completes.lex_eq]
    refine ⟨_, _, _, .finished completes, ?_⟩
    exact chain.explains.afterEnd (chain.mode_foldl_after rfl) src
  · obtain ⟨done, searches, course, explains⟩ := chain.exists_course stops
    exact ⟨done, searches, stop, course, explains⟩
  · have reached := chain.mode_foldl_after (p := { mode := lexer.tables.startMode }) rfl
    obtain ⟨b, read, run⟩ := exists_lexAt_of_missing (reached.symm ▸ missing) inside
    rw [lex_eq_lexAt, chain.lexAt_eq rfl, run]
    refine ⟨_, _, stop, .unmatched chain read ?_, chain.explains.search⟩
    rintro m ⟨a, automaton, -⟩
    cases missing.symm.trans automaton

omit [DecidableEq M] in
theorem Course.offset_eq {failure? : Option LexFailure} {f : LexFailure}
    (h : Course lexer src failure? done searches stop) (failed : failure? = some f) :
    f.offset = stop := by
  cases h <;> cases failed <;> rfl

/-- If lexing succeeds, its tokens are those that were appended, and the whole source is read. -/
theorem Course.collected (h : Course lexer src (lexer.lex src).failure? done searches stop)
    {tokens : TokenList T} (succeeds : (lexer.lex src).result = .ok tokens) :
    tokens.toList = done.filterMap Performed.token? ∧ stop = src.size := by
  generalize ends : (lexer.lex src).failure? = failure? at h
  cases h with
  | @finished steps mode completes =>
      obtain rfl := Except.ok.inj (succeeds.symm.trans completes.result_eq)
      refine ⟨?_, rfl⟩
      rw [List.filterMap_append, filterMap_performed, filterMap_performedAtEnd, emitted]
  | rejectedEnd | unmatched | rejected | refused =>
      rw [LexRun.result, ends] at succeeds
      cases succeeds

/-- The counters of every run tell what it did. Lexing adds to what has been counted before how many
searches it made, how many tokens it appended and how often it changed the mode, and what it skipped
is what lies between the tokens up to the offset that it reached. That offset is the end of the
source if lexing succeeds, and is named in the message if it fails. -/
theorem lex_counts (lexer : Lexer T R M) (src : Source) (d : Diagnostics) :
    ∃ done searches stop, Course lexer src (lexer.lex src).failure? done searches stop ∧
      Counted done searches d.lexer ((lexer.lex src).record src d).lexer ∧
      ((lexer.lex src).record src d).lexer.skipped + Performed.covered done =
        d.lexer.skipped + stop ∧
      (∀ tokens, (lexer.lex src).result = .ok tokens →
        tokens.toList = done.filterMap Performed.token? ∧
          tokens.size = done.countP Performed.emits ∧ stop = src.size) ∧
      (∀ f, (lexer.lex src).failure? = some f →
        f.offset = stop ∧ NamesOffset (f.message src) stop) := by
  obtain ⟨done, searches, stop, course, explains⟩ := lexer.exists_course src
  refine ⟨done, searches, stop, course, ?_, ?_, fun tokens succeeds => ?_, fun f failed => ?_⟩
  · rw [LexRun.lexer_record]
    exact explains.counted.countedOn d.lexer
  · rw [LexRun.lexer_record, ← explains.bytes]
    exact Nat.add_assoc ..
  · obtain ⟨collected, whole⟩ := course.collected succeeds
    refine ⟨collected, ?_, whole⟩
    rw [← Array.length_toList, collected, Performed.length_tokens]
  · obtain rfl := course.offset_eq failed
    exact ⟨rfl, f.namesOffset src⟩

end Lexer

end TableParsing
