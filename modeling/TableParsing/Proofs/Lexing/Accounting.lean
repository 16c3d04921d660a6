import TableParsing.Proofs.Lexing.Outcome

/-!
# Where the bytes of a source go

A step either appends a token over what it has matched or counts that as skipped. So at any moment
of a run, the bytes that are skipped and the bytes that tokens cover are together the bytes read so
far. A run that succeeds has read the whole source, and the action at the end adds nothing but an
empty range.
-/

namespace TableParsing

variable {T R M : Type}

namespace LexProgress

/-- The bytes that a run has skipped or put into tokens. -/
def accounted (p : LexProgress T R M) : Nat :=
  p.counters.skipped + (p.tokens.map (·.span.length)).sum

variable {p : LexProgress T R M}

@[simp] theorem accounted_search : p.search.accounted = p.accounted := rfl

@[simp] theorem accounted_note {e : LexEvent R M} : (p.note e).accounted = p.accounted := rfl

/-- Whether a range becomes a token or is skipped, it is accounted for. -/
@[simp] theorem accounted_collect {terminal? : Option T} {span : Span} :
    (p.collect terminal? span).accounted = p.accounted + span.length := by
  cases terminal? with
  | some terminal =>
      simp only [collect, accounted, List.map_cons, List.sum_cons]
      omega
  | none =>
      simp only [collect, accounted]
      omega

@[simp] theorem accounted_enter [DecidableEq M] {mode : M} :
    (p.enter mode).accounted = p.accounted := by
  unfold enter
  split <;> rfl

end LexProgress

namespace Lexer

variable [DecidableEq M] {lexer : Lexer T R M} {p : LexProgress T R M}

theorem accounted_after (s : LexStep M) :
    (lexer.after p s).accounted = p.accounted + s.span.length := by
  simp [after]

theorem accounted_afterEnd (offset : Nat) :
    (lexer.afterEnd p offset).accounted = p.accounted := by
  simp [afterEnd, Span.empty, Span.length]

variable [Entry M] {src : Source} {mode mode' : M} {offset stop : Nat}
variable {steps : List (LexStep M)}

/-- The steps of a chain account for the bytes between its ends. -/
theorem Chain.accounted (h : lexer.Chain src mode offset steps mode' stop)
    (p : LexProgress T R M) :
    (steps.foldl lexer.after p).accounted + offset = p.accounted + stop := by
  induction h generalizing p with
  | nil => rfl
  | @cons mode _ offset _ m _ _ _ _ ih =>
      have later := ih (lexer.after p (.ofMatch mode offset m))
      rw [accounted_after] at later
      simp only [LexStep.ofMatch, Span.length] at later
      rw [List.foldl_cons]
      simp only [LexStep.ofMatch]
      omega

/-- If lexing succeeds, every byte of the source is skipped or in a token. -/
theorem skipped_add_covered {tokens : TokenList T} (h : (lexer.lex src).result = .ok tokens) :
    (lexer.lex src).progress.counters.skipped + (tokens.toList.map (·.span.length)).sum =
      src.size := by
  obtain ⟨steps, mode, completes, _⟩ := exists_completes_of_result h
  have run := completes.lex_eq
  have collected : tokens.toList = (lexer.lex src).progress.tokens.reverse := by
    rw [LexRun.result, run] at h
    obtain rfl := Except.ok.inj h
    rw [run]
    rfl
  have total : (lexer.lex src).progress.accounted = src.size := by
    have chain := completes.chain.accounted { mode := lexer.tables.startMode }
    rw [run, accounted_afterEnd]
    simpa [LexProgress.accounted] using chain
  rw [collected, List.map_reverse, List.sum_reverse]
  exact total

end Lexer

end TableParsing
