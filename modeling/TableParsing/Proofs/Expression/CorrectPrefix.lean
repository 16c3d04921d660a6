import TableParsing.Expression.Pipeline
import TableParsing.Proofs.Expression.Recognition
import TableParsing.Proofs.Text.Bounded

/-!
# Blame for words that are no sentence

A parser of expressions is a correct-prefix parser: it fails at the first token that cannot continue
any sentence, having consumed exactly the tokens before it. If every token can continue a sentence
but the word is none, it fails at the end of the input. The failure says so in its text, and none of
the failures of inconsistent tables occurs.
-/

namespace TableParsing

namespace Expression

open ParseTables

/-- A run fails for a cause with the given text after consuming `count` tokens, and diagnostics say
so afterwards, whatever they said before. -/
structure Reports (run : ParseRun Lexeme Phrase Production)
    (cause : ParseFailure Lexeme Phrase Production) (text : String) (count : Nat) : Prop where
  result : run.result = .error cause
  wording : cause.message = text
  kind (d : Diagnostics) : (run.record d).kind = some .syntactic
  message (d : Diagnostics) : (run.record d).message = Diagnostics.stored [text]
  tokens (d : Diagnostics) : (run.record d).parser.tokens = count
  shifts (d : Diagnostics) : (run.record d).parser.shifts = count

variable {tokens : TokenList Lexeme}

theorem reports_of_result {cause : ParseFailure Lexeme Phrase Production} {text : String}
    {c : Configuration Lexeme Phrase} {s : Stack} (ending : Ending resolve tokens c s)
    (result : (parseTables.parse tokens).result = .error cause) (kind : cause.kind = .syntactic)
    (wording : cause.message = text) :
    Reports (parseTables.parse tokens) cause text c.index := by
  subst wording
  have counts (d : Diagnostics) : ((parseTables.parse tokens).record d).parser = _ :=
    ParseRun.parser_of_record ending.counts d
  have same := ending.reachable.conserved.index_eq_shifts
  constructor
  · exact result
  · rfl
  · intro d
    simp [ParseRun.record, result, Diagnostics.report, kind]
  · intro d
    simp [ParseRun.record, result, Diagnostics.report]
  · intro d
    simp [counts d, Configuration.counters]
  · intro d
    simp [counts d, Configuration.counters, same]

/-- If no token is an end mark, a run over a word that is no sentence ends where its phase refuses
what comes next. -/
theorem exists_refusal (unmarked : ∀ t ∈ tokens, t.terminal ≠ .finish)
    (wrong : ¬ Sentence (lexemes tokens)) :
    ∃ c s, Ending resolve tokens c s ∧
      s.phase.next (upcoming tokens c.index).terminal = none ∧
      (parseTables.parse tokens).result = .error (unexpected tokens c) := by
  obtain ⟨c, s, ending, ⟨e, described, atEnd, _⟩ | ⟨refused, _, result⟩⟩ :=
    exists_ending tokens settles_resolve
  · have whole := ending.index_eq_size unmarked atEnd
    have all := ending.lexemes_take
    rw [whole, List.take_of_length_le (by simp [lexemes]), described] at all
    refine absurd ?_ wrong
    rw [all]
    exact e.sentence
  · exact ⟨c, s, ending, refused, result⟩

/-- The text that mentions a token by its label and its span. -/
def mention (t : Token Lexeme) : String :=
  t.terminal.label ++ " at " ++ toString t.span.start ++ ".." ++ toString t.span.stop

theorem append_mention (front : String) (t : Token Lexeme) :
    front ++ Labelled.label t.terminal ++ " at " ++ toString t.span = front ++ mention t := by
  change front ++ t.terminal.label ++ " at " ++
    (toString t.span.start ++ ".." ++ toString t.span.stop) = _
  simp only [mention, String.append_assoc]

theorem message_unexpectedToken (t : Token Lexeme) :
    (ParseFailure.unexpectedToken t : ParseFailure Lexeme Phrase Production).message =
      "unexpected " ++ mention t :=
  append_mention _ t

/-- The text of a failure at the end of the input, after the given last token. -/
def endMessage : Option (Token Lexeme) → String
  | none => "unexpected end of input"
  | some t => "unexpected end of input after " ++ mention t

theorem message_unexpectedEnd (last : Option (Token Lexeme)) :
    (ParseFailure.unexpectedEnd last : ParseFailure Lexeme Phrase Production).message =
      endMessage last := by
  cases last with
  | none => rfl
  | some t => exact append_mention _ t

/-- A text that mentions a token is stored in full if its offsets are machine words. -/
theorem stored_mention {front : String} (short : front.utf8ByteSize ≤ 30) {t : Token Lexeme}
    (words : t.span.InWords) : Diagnostics.stored [front ++ mention t] = front ++ mention t := by
  refine Diagnostics.stored_singleton ?_
  have label_le : (Labelled.label t.terminal).utf8ByteSize ≤ 6 := by
    cases t.terminal <;> decide
  have span_le := words.utf8ByteSize_le
  rw [← append_mention]
  simp only [String.utf8ByteSize_append]
  show _ + _ + 4 + _ ≤ 256
  omega

/-- A failure in front of a token or of the end is stored with its whole text. -/
theorem stored_message_unexpected {c : Configuration Lexeme Phrase}
    (words : ∀ t ∈ tokens, t.span.InWords) :
    Diagnostics.stored [(unexpected tokens c : ParseFailure Lexeme Phrase Production).message] =
      (unexpected tokens c : ParseFailure Lexeme Phrase Production).message := by
  unfold unexpected
  cases read : tokens[c.index]? with
  | some t =>
      rw [message_unexpectedToken]
      exact stored_mention (by decide) (words t (Array.mem_of_getElem? read))
  | none =>
      rw [message_unexpectedEnd]
      cases last : tokens.back? with
      | none => exact Diagnostics.stored_singleton (by decide)
      | some t => exact stored_mention (by decide) (words t (Array.mem_of_back? last))

theorem unexpected_blames (tokens : TokenList Lexeme) (c : Configuration Lexeme Phrase) :
    (∃ t ∈ tokens, (unexpected tokens c : ParseFailure Lexeme Phrase Production) =
      .unexpectedToken t) ∨
    (unexpected tokens c : ParseFailure Lexeme Phrase Production) =
      .unexpectedEnd tokens.back? := by
  unfold unexpected
  cases read : tokens[c.index]? with
  | some t => exact .inl ⟨t, Array.mem_of_getElem? read, rfl⟩
  | none => exact .inr rfl

/-- A word that is no sentence and has no end mark is blamed on the first token that cannot continue
a sentence, or else on the end of the input. If offsets are machine words, the whole message is
stored. -/
theorem parse_unexpected (unmarked : ∀ t ∈ tokens, t.terminal ≠ .finish)
    (wrong : ¬ Sentence (lexemes tokens)) :
    (∀ (i : Nat) (inside : i < tokens.size), ¬ Viable ((lexemes tokens).take (i + 1)) →
      (∀ j < i, Viable ((lexemes tokens).take (j + 1))) →
      Reports (parseTables.parse tokens) (.unexpectedToken tokens[i])
        ("unexpected " ++ mention tokens[i]) i) ∧
    ((∀ i < tokens.size, Viable ((lexemes tokens).take (i + 1))) →
      Reports (parseTables.parse tokens) (.unexpectedEnd tokens.back?)
        (endMessage tokens.back?) tokens.size) ∧
    ∃ cause, (parseTables.parse tokens).result = .error cause ∧
      ((∃ t ∈ tokens, cause = .unexpectedToken t) ∨ cause = .unexpectedEnd tokens.back?) ∧
      ((∀ t ∈ tokens, t.span.InWords) →
        ∀ d : Diagnostics, ((parseTables.parse tokens).record d).message = cause.message) := by
  obtain ⟨c, s, ending, refused, result⟩ := exists_refusal unmarked wrong
  refine ⟨?_, ?_, ?_⟩
  · intro i inside bad least
    have le : c.index ≤ i := by
      by_contra later
      exact bad (ending.viable_take (Nat.lt_of_not_le later))
    have bound := Nat.lt_of_le_of_lt le inside
    have eq : c.index = i := by
      by_contra earlier
      exact ending.not_viable_take bound refused (least _ (Nat.lt_of_le_of_ne le earlier))
    subst eq
    have cause : (unexpected tokens c : ParseFailure Lexeme Phrase Production) =
        .unexpectedToken tokens[c.index] := by
      simp [unexpected, bound]
    exact reports_of_result ending (cause ▸ result) rfl (message_unexpectedToken _)
  · intro good
    have eq : c.index = tokens.size := by
      by_contra inside
      have bound := Nat.lt_of_le_of_ne ending.index_le inside
      exact ending.not_viable_take bound refused (good _ bound)
    have cause : (unexpected tokens c : ParseFailure Lexeme Phrase Production) =
        .unexpectedEnd tokens.back? := by
      simp [unexpected, eq]
    exact eq ▸ reports_of_result ending (cause ▸ result) rfl (message_unexpectedEnd _)
  · refine ⟨_, result, unexpected_blames tokens c, fun words d => ?_⟩
    have stored := stored_message_unexpected (c := c) words
    rw [ParseRun.record, result]
    exact stored

/-- The word `( 1 + * 2`, whose fourth token is wrong. -/
def doubledOperator : TokenList Lexeme :=
  #[⟨.lparen, ⟨0, 1⟩⟩, ⟨.num, ⟨1, 2⟩⟩, ⟨.plus, ⟨3, 4⟩⟩, ⟨.times, ⟨5, 6⟩⟩, ⟨.num, ⟨7, 8⟩⟩]

theorem parse_doubledOperator :
    Reports (parseTables.parse doubledOperator) (.unexpectedToken ⟨.times, ⟨5, 6⟩⟩)
      "unexpected TIMES at 5..6" 3 := by
  have unmarked : ∀ t ∈ doubledOperator, t.terminal ≠ .finish := by decide
  have wrong : ¬ Sentence (lexemes doubledOperator) := by
    intro h
    exact absurd (h.read 0) (by decide)
  have bad : ¬ Viable ((lexemes doubledOperator).take 4) := by
    intro h
    exact h.read_ne_none (by decide)
  have good : Viable [.lparen, .num, .plus] :=
    ⟨[.num, .rparen], .group (.binary .plus .number .number)⟩
  have least : ∀ j < 3, Viable ((lexemes doubledOperator).take (j + 1)) := by
    intro j lt
    match j, lt with
    | 0, _ => exact good.of_append (u := [.lparen])
    | 1, _ => exact good.of_append (u := [.lparen, .num])
    | 2, _ => exact good
  exact (parse_unexpected unmarked wrong).1 3 (by decide) bad least

end Expression

end TableParsing
