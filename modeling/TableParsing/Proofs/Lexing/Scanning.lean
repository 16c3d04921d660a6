import TableParsing.Proofs.Lexing.Outcome

/-!
# Lexing as scanning

A scanner for the words of a lexer is a function on bytes that knows neither patterns nor modes.
`Scans` says that what it gives for the rest of a source, tokens or a failure, is what the lexer
does there. It is proved from the end: a step in front puts its token in front, and a scan of the
whole source is the result of lexing.
-/

namespace TableParsing

namespace Lexer

variable {T R M : Type} [Entry M]

/-- What the lexer does from an offset on, as tokens or a failure tell it: its steps lead through
the rest of the source and give these tokens, or they lead to the offset of the failure and stop
there. -/
def Scans (lexer : Lexer T R M) (src : Source) (mode : M) (offset : Nat) :
    Except LexFailure (List (Token T)) → Prop
  | .ok tokens => ∃ steps mode', lexer.Chain src mode offset steps mode' src.size ∧
      (∀ reason, lexer.endAction mode' ≠ .reject reason) ∧
      lexer.emitted src steps mode' = tokens
  | .error f => ∃ steps mode', lexer.Chain src mode offset steps mode' f.offset ∧
      lexer.Stops src mode' f.offset f

variable {lexer : Lexer T R M} {src : Source} {mode mode' : M} {offset : Nat} {m : Match}
variable {result : Except LexFailure (List (Token T))} {t : T}

/-- Where no step can be taken, there is only the failure. -/
theorem Stops.scans {f : LexFailure} (stops : lexer.Stops src mode offset f) :
    lexer.Scans src mode offset (.error f) := by
  obtain rfl := stops.offset_eq
  exact ⟨[], mode, .nil, stops⟩

/-- A step in front puts its token in front. -/
theorem Scans.step (takes : lexer.Takes src mode offset m)
    (allowed : ∀ reason, lexer.actionOf (.ofMatch mode offset m) ≠ .reject reason)
    (h : lexer.Scans src ((lexer.actionOf (.ofMatch mode offset m)).nextMode mode)
      (offset + m.length) result) :
    lexer.Scans src mode offset
      (result.map ((lexer.tokenOf? (.ofMatch mode offset m)).toList ++ ·)) := by
  cases result with
  | ok tokens =>
      obtain ⟨steps, last, chain, ends, rfl⟩ := h
      refine ⟨_, last, .cons takes allowed chain, ends, ?_⟩
      rw [emitted, emitted, List.filterMap_cons]
      cases lexer.tokenOf? (.ofMatch mode offset m) <;> rfl
  | error f =>
      obtain ⟨steps, last, chain, stops⟩ := h
      exact ⟨_, last, .cons takes allowed chain, stops⟩

/-- A step that emits puts its token in front. -/
theorem Scans.emit (takes : lexer.Takes src mode offset m)
    (action : lexer.actionOf (.ofMatch mode offset m) = .emit t)
    (h : lexer.Scans src mode (offset + m.length) result) :
    lexer.Scans src mode offset (result.map (⟨t, ⟨offset, offset + m.length⟩⟩ :: ·)) := by
  have token : lexer.tokenOf? (.ofMatch mode offset m) =
      some ⟨t, ⟨offset, offset + m.length⟩⟩ := by
    rw [tokenOf?, action]
    rfl
  have allowed : ∀ reason, lexer.actionOf (.ofMatch mode offset m) ≠ .reject reason := by
    intro reason rejects
    rw [action] at rejects
    cases rejects
  have all : lexer.Scans src mode offset
      (result.map ((lexer.tokenOf? (.ofMatch mode offset m)).toList ++ ·)) :=
    .step takes allowed (by rwa [action])
  rw [token] at all
  exact all

/-- A step that goes on in a mode without a token changes nothing. -/
theorem Scans.pass (takes : lexer.Takes src mode offset m)
    (action : lexer.actionOf (.ofMatch mode offset m) = .begin mode' ∨
      lexer.actionOf (.ofMatch mode offset m) = .skip ∧ mode' = mode)
    (h : lexer.Scans src mode' (offset + m.length) result) :
    lexer.Scans src mode offset result := by
  have silent : lexer.tokenOf? (.ofMatch mode offset m) = none := by
    obtain action | ⟨action, _⟩ := action <;> rw [tokenOf?, action] <;> rfl
  have allowed : ∀ reason, lexer.actionOf (.ofMatch mode offset m) ≠ .reject reason := by
    intro reason rejects
    obtain action | ⟨action, _⟩ := action
    all_goals
      rw [action] at rejects
      cases rejects
  have all : lexer.Scans src mode offset
      (result.map ((lexer.tokenOf? (.ofMatch mode offset m)).toList ++ ·)) := by
    obtain action | ⟨action, rfl⟩ := action
    · exact .step takes allowed (by rwa [action])
    · exact .step takes allowed (by rwa [action])
  rw [silent] at all
  cases result <;> exact all

variable [DecidableEq M]

/-- A scan of the whole source is the result of lexing. -/
theorem Scans.result_eq (h : lexer.Scans src lexer.tables.startMode 0 result) :
    (lexer.lex src).result = result.map List.toArray := by
  cases result with
  | ok tokens =>
      obtain ⟨steps, last, chain, ends, rfl⟩ := h
      have completes : lexer.Completes src steps last := ⟨chain, ends⟩
      exact completes.result_eq
  | error f =>
      obtain ⟨steps, last, chain, stops⟩ := h
      exact (chain.fails stops).result

end Lexer

end TableParsing
