import TableParsing.Proofs.Lexing.Patterns
import TableParsing.Proofs.Lexing.Wording
import TableParsing.Sheet

/-!
# What lexing comes to

Lexing succeeds exactly if a chain of steps leads through the whole source and the action at the end
is not to fail. There is only one such chain, and its steps lie side by side: tokens are the ranges
of those that emit, and the bytes between tokens are the ranges of those that do not.

If there is none, lexing fails where the chain that there is stops, and names that offset. Only a
long reason for a rejection can push the offset out of the stored message.
-/

namespace TableParsing

namespace Span

def Has (s : Span) (k : Nat) : Prop := s.start ≤ k ∧ k < s.stop

end Span

namespace Lexer

variable {T R M : Type} [Entry M]

/-- Steps that lead through the whole source, to a mode in which the action at the end is not to
fail. -/
structure Completes (lexer : Lexer T R M) (src : Source) (steps : List (LexStep M)) (mode : M) :
    Prop where
  chain : lexer.Chain src lexer.tables.startMode 0 steps mode src.size
  allowed : ∀ reason, lexer.endAction mode ≠ .reject reason

/-- The tokens of steps, and the token at the end if there is one. -/
def emitted (lexer : Lexer T R M) (src : Source) (steps : List (LexStep M)) (mode : M) :
    List (Token T) :=
  steps.filterMap lexer.tokenOf? ++ (lexer.endToken? mode src.size).toList

/-- How the tokens of steps lie in a source. -/
structure Covering (lexer : Lexer T R M) (src : Source) (steps : List (LexStep M)) (mode : M) :
    Prop where
  fits : ∀ t ∈ lexer.emitted src steps mode, t.span.Fits src
  ordered : (lexer.emitted src steps mode).Pairwise (·.span.stop ≤ ·.span.start)
  nonempty : ∀ t ∈ steps.filterMap lexer.tokenOf?, t.span.start < t.span.stop
  uncovered : ∀ k < src.size, (∀ t ∈ lexer.emitted src steps mode, ¬ t.span.Has k) ↔
    ∃ s ∈ steps, s.span.Has k ∧ (lexer.actionOf s).terminal? = none

variable {lexer : Lexer T R M} {src : Source} {mode mode' : M} {offset stop : Nat}
variable {steps steps' : List (LexStep M)}

omit [Entry M] in
theorem tokenOf?_eq_some {s : LexStep M} {t : Token T} (h : lexer.tokenOf? s = some t) :
    t.span = s.span ∧ (lexer.actionOf s).terminal? = some t.terminal := by
  obtain ⟨terminal, isSome, rfl⟩ := Option.map_eq_some_iff.mp h
  exact ⟨rfl, isSome⟩

/-- The ranges of steps are not empty and lie between the ends of the chain. -/
theorem Chain.bounds (h : lexer.Chain src mode offset steps mode' stop) :
    ∀ s ∈ steps, offset ≤ s.span.start ∧ s.span.start < s.span.stop ∧ s.span.stop ≤ stop := by
  induction h with
  | nil => nofun
  | @cons _ _ _ _ m _ _ _ rest ih =>
      intro s mem
      have pos := m.pos
      rcases List.mem_cons.mp mem with rfl | later
      · exact ⟨Nat.le_refl _, Nat.lt_add_of_pos_right pos, rest.le_stop⟩
      · obtain ⟨lower, nonempty, upper⟩ := ih s later
        exact ⟨by omega, nonempty, upper⟩

theorem Chain.token_bounds (h : lexer.Chain src mode offset steps mode' stop) :
    ∀ t ∈ steps.filterMap lexer.tokenOf?,
      offset ≤ t.span.start ∧ t.span.start < t.span.stop ∧ t.span.stop ≤ stop := by
  intro t mem
  obtain ⟨s, inSteps, token⟩ := List.mem_filterMap.mp mem
  rw [(tokenOf?_eq_some token).1]
  exact h.bounds s inSteps

theorem Chain.tokens_ordered (h : lexer.Chain src mode offset steps mode' stop) :
    (steps.filterMap lexer.tokenOf?).Pairwise (·.span.stop ≤ ·.span.start) := by
  induction h with
  | nil => exact .nil
  | @cons mode _ offset _ m _ _ _ rest ih =>
      cases token : lexer.tokenOf? (.ofMatch mode offset m) with
      | none => rwa [List.filterMap_cons_none token]
      | some t =>
          rw [List.filterMap_cons_some token, List.pairwise_cons]
          refine ⟨?_, ih⟩
          intro u mem
          rw [(tokenOf?_eq_some token).1]
          exact (rest.token_bounds u mem).1

/-- Every offset between the ends of a chain lies within the range of one step. -/
theorem Chain.exists_step (h : lexer.Chain src mode offset steps mode' stop) {k : Nat}
    (lower : offset ≤ k) (upper : k < stop) :
    ∃ s ∈ steps, s.span.Has k ∧ ∀ s' ∈ steps, s'.span.Has k → s' = s := by
  induction h with
  | nil => omega
  | @cons mode _ offset _ m steps _ _ rest ih =>
      rcases Nat.lt_or_ge k (offset + m.length) with here | later
      · refine ⟨_, List.mem_cons_self, ⟨lower, here⟩, fun s' mem has => ?_⟩
        rcases List.mem_cons.mp mem with rfl | inRest
        · rfl
        · have := (rest.bounds s' inRest).1
          have := has.1
          omega
      · obtain ⟨s, mem, has, only⟩ := ih later upper
        refine ⟨s, List.mem_cons_of_mem _ mem, has, fun s' mem' has' => ?_⟩
        rcases List.mem_cons.mp mem' with rfl | inRest
        · have : k < offset + m.length := has'.2
          omega
        · exact only s' inRest has'

/-- Between the ends of a chain, what no token covers is the range of a step without a token. -/
theorem Chain.uncovered (h : lexer.Chain src mode offset steps mode' stop) {k : Nat}
    (lower : offset ≤ k) (upper : k < stop) :
    (∀ t ∈ steps.filterMap lexer.tokenOf?, ¬ t.span.Has k) ↔
      ∃ s ∈ steps, s.span.Has k ∧ (lexer.actionOf s).terminal? = none := by
  obtain ⟨s, mem, has, only⟩ := h.exists_step lower upper
  constructor
  · intro uncovered
    refine ⟨s, mem, has, ?_⟩
    cases terminal : (lexer.actionOf s).terminal? with
    | none => rfl
    | some t =>
        have token : lexer.tokenOf? s = some ⟨t, s.span⟩ := by
          rw [tokenOf?, terminal, Option.map_some]
        exact absurd has (uncovered _ (List.mem_filterMap.mpr ⟨s, mem, token⟩))
  · rintro ⟨s', mem', has', silent⟩ t inTokens covers
    obtain rfl := only s' mem' has'
    obtain ⟨s'', mem'', token⟩ := List.mem_filterMap.mp inTokens
    obtain ⟨span, emits⟩ := tokenOf?_eq_some token
    obtain rfl := only s'' mem'' (span ▸ covers)
    rw [silent] at emits
    cases emits

omit [Entry M] in
theorem endToken?_eq_some {t : Token T} (h : lexer.endToken? mode src.size = some t) :
    t.span = .empty src.size := by
  obtain ⟨_, _, rfl⟩ := Option.map_eq_some_iff.mp h
  rfl

/-- The tokens of a complete chain lie in order and cover what the steps that emit have matched. -/
theorem Completes.covering (h : lexer.Completes src steps mode) :
    lexer.Covering src steps mode := by
  have bounds := h.chain.token_bounds
  have atEnd : ∀ t ∈ (lexer.endToken? mode src.size).toList, t.span = .empty src.size :=
    fun t mem => endToken?_eq_some (Option.mem_toList.mp mem)
  refine ⟨?_, ?_, fun t mem => (bounds t mem).2.1, ?_⟩
  · intro t mem
    rcases List.mem_append.mp mem with inSteps | last
    · obtain ⟨_, nonempty, upper⟩ := bounds t inSteps
      exact ⟨Nat.le_of_lt nonempty, upper⟩
    · rw [atEnd t last]
      exact ⟨Nat.le_refl _, Nat.le_refl _⟩
  · apply List.pairwise_append.mpr
    refine ⟨h.chain.tokens_ordered, ?_, ?_⟩
    · cases lexer.endToken? mode src.size <;> simp
    · intro t mem u last
      rw [atEnd u last]
      exact (bounds t mem).2.2
  · intro k inside
    rw [← h.chain.uncovered (Nat.zero_le k) inside]
    constructor
    · intro uncovered t inSteps
      exact uncovered t (List.mem_append_left _ inSteps)
    · intro uncovered t mem has
      rcases List.mem_append.mp mem with inSteps | last
      · exact uncovered t inSteps has
      · rw [atEnd t last] at has
        have : k < src.size ∧ src.size ≤ k := ⟨has.2, has.1⟩
        omega

/-- A run that stops for a cause: where the chain stops, and what is reported. -/
structure Fails [DecidableEq M] (lexer : Lexer T R M) (src : Source) (f : LexFailure) : Prop where
  stops : ∃ steps mode, lexer.Chain src lexer.tables.startMode 0 steps mode f.offset ∧
    lexer.Stops src mode f.offset f
  result : (lexer.lex src).result = .error f
  names : NamesOffset (f.message src) f.offset
  kind (d : Diagnostics) : ((lexer.lex src).record src d).kind = some .lexical
  message (d : Diagnostics) :
    ((lexer.lex src).record src d).message = Diagnostics.stored [f.message src]
  whole (words : src.size < 2 ^ 64)
    (short : ∀ reason n, f = .rejected reason n → reason.utf8ByteSize ≤ 181) :
    Diagnostics.stored [f.message src] = f.message src

theorem Stops.offset_eq {f : LexFailure} (h : lexer.Stops src mode offset f) :
    f.offset = offset := by
  cases h <;> rfl

theorem Stops.offset_le {f : LexFailure} (h : lexer.Stops src mode offset f) :
    f.offset ≤ src.size := by
  rw [h.offset_eq]
  cases h with
  | refused inside => exact Nat.le_of_lt inside
  | unmatched _ _ read => exact Nat.le_of_lt (Array.getElem?_eq_some_iff.mp read).1
  | rejected takes => exact Nat.le_of_lt takes.lt_size
  | rejectedEnd atEnd => exact Nat.le_of_eq atEnd

variable [DecidableEq M]

/-- A complete chain is what lexing goes through. -/
theorem Completes.lex_eq (h : lexer.Completes src steps mode) :
    lexer.lex src =
      ⟨lexer.afterEnd (steps.foldl lexer.after { mode := lexer.tables.startMode }) src.size,
        none⟩ := by
  have reached := h.chain.mode_foldl_after (p := { mode := lexer.tables.startMode }) rfl
  rw [lex_eq_lexAt, h.chain.lexAt_eq rfl]
  exact lexAt_of_end (reached.symm ▸ h.allowed)

/-- The tokens of lexing are those of a complete chain. -/
theorem Completes.result_eq (h : lexer.Completes src steps mode) :
    (lexer.lex src).result = .ok (lexer.emitted src steps mode).toArray := by
  have reached := h.chain.mode_foldl_after (p := { mode := lexer.tables.startMode }) rfl
  rw [h.lex_eq, LexRun.result, LexProgress.tokenList, tokens_afterEnd, tokens_foldl_after, reached,
    emitted]
  cases lexer.endToken? mode src.size <;> simp

/-- Where a chain stops for a cause, lexing fails for that cause. -/
theorem Chain.fails {f : LexFailure}
    (h : lexer.Chain src lexer.tables.startMode 0 steps mode stop)
    (stops : lexer.Stops src mode stop f) : lexer.Fails src f := by
  have reached := h.mode_foldl_after (p := { mode := lexer.tables.startMode }) rfl
  have failure : (lexer.lex src).failure? = some f := by
    obtain ⟨q, run, -⟩ := exists_lexAt_of_stops (reached.symm ▸ stops)
    rw [lex_eq_lexAt, h.lexAt_eq rfl, run]
  obtain rfl := stops.offset_eq
  refine ⟨⟨steps, mode, h, stops⟩, ?_, f.namesOffset src, fun d => ?_, fun d => ?_,
    fun words short => LexFailure.stored_message words stops.offset_le short⟩
  · rw [LexRun.result, failure]
  · simp only [LexRun.record, failure, Diagnostics.report]
  · simp only [LexRun.record, failure, Diagnostics.report]

/-- With automata for all modes, there is a complete chain, or lexing fails for a cause. -/
theorem Covered.completes_or_fails (covered : lexer.Covered) (src : Source) :
    (∃ steps mode, lexer.Completes src steps mode) ∨ ∃ f, lexer.Fails src f := by
  obtain ⟨steps, mode, stop, chain, ⟨rfl, allowed⟩ | ⟨f, stops⟩⟩ :=
    covered.exists_chain 0 lexer.tables.startMode covered.start (Nat.zero_le src.size)
  · exact .inl ⟨steps, mode, chain, allowed⟩
  · exact .inr ⟨f, chain.fails stops⟩

/-- Tokens are what a complete chain emits, also if some modes have no automata. -/
theorem exists_completes_of_result {tokens : TokenList T}
    (h : (lexer.lex src).result = .ok tokens) :
    ∃ steps mode, lexer.Completes src steps mode ∧
      tokens.toList = lexer.emitted src steps mode := by
  obtain ⟨steps, mode, stop, chain, ⟨rfl, allowed⟩ | ⟨f, stops⟩ | ⟨inside, missing⟩⟩ :=
    lexer.exists_chain 0 lexer.tables.startMode (Nat.zero_le src.size)
  · have completes : lexer.Completes src steps mode := ⟨chain, allowed⟩
    obtain rfl := Except.ok.inj (h.symm.trans completes.result_eq)
    exact ⟨steps, mode, completes, rfl⟩
  · cases h.symm.trans (chain.fails stops).result
  · have reached := chain.mode_foldl_after (p := { mode := lexer.tables.startMode }) rfl
    obtain ⟨b, -, run⟩ := exists_lexAt_of_missing (reached.symm ▸ missing) inside
    rw [LexRun.result, lex_eq_lexAt, chain.lexAt_eq rfl, run] at h
    cases h

/-- Lexing succeeds with what a complete chain emits, and with nothing else. -/
theorem Covered.result_eq_ok_iff (covered : lexer.Covered) {tokens : TokenList T} :
    (lexer.lex src).result = .ok tokens ↔
      ∃ steps mode, lexer.Completes src steps mode ∧
        tokens.toList = lexer.emitted src steps mode := by
  constructor
  · intro result
    obtain ⟨steps, mode, completes⟩ | ⟨f, fails⟩ := covered.completes_or_fails src
    · obtain rfl := Except.ok.inj (result.symm.trans completes.result_eq)
      exact ⟨steps, mode, completes, rfl⟩
    · cases result.symm.trans fails.result
  · rintro ⟨steps, mode, completes, same⟩
    rw [completes.result_eq, ← same]

section Letters

/-- A sheet with one mode, in which either of two letters is matched. -/
def letterSheet (action : LexAction SheetTerminal SheetMode) : LexSheet where
  modeCount := 1
  patterns := [["[ab]"]]
  actions := #[#[action]]
  endActions := #[.skip]

def letter : SheetTerminal := ⟨⟨0, "A"⟩⟩

/-- The automaton for the letters, which gives up on certain bytes. -/
def letterAutomaton (quits : ByteSet) : Automaton := { patterns := [.bytes ⟨[(97, 98)]⟩], quits }

end Letters

end Lexer

end TableParsing
