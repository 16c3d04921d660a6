import TableParsing.Proofs.ItemList.Recognition
import TableParsing.Proofs.ItemList.Scanner

/-!
# Lists from bytes to trees

The lexer and the parser of lists together. A legal source gives items, pairs and stop marks. Items
and pairs alone are a list, which nests to the left; the first stop mark is where parsing fails.
-/

namespace TableParsing

namespace ItemList

open ParseTables

/-- A run over tokens returns the list of all of them, and counts each once. -/
structure ReturnsList (tokens : TokenList Lexeme) (run : ParseRun Lexeme Phrase Production) :
    Prop where
  result : run.result = .ok (listTree tokens.toList)
  depth : (listTree tokens.toList).depth = tokens.size + 1
  nodeCount : (listTree tokens.toList).nodeCount = 2 * tokens.size + 1
  counters (d : Diagnostics) :
    (run.record d).parser = ⟨tokens.size, tokens.size, tokens.size + 1, 0⟩

def stopMessage (span : Span) : String :=
  "unexpected STOP at " ++ toString span.start ++ ".." ++ toString span.stop

/-- A run fails at a stop mark after consuming `count` tokens, and says so. -/
structure FailsAtStop (span : Span) (count : Nat) (run : ParseRun Lexeme Phrase Production) :
    Prop where
  result : run.result = .error (.unexpectedToken ⟨.stop, span⟩)
  wording : (ParseFailure.unexpectedToken ⟨.stop, span⟩ :
    ParseFailure Lexeme Phrase Production).message = stopMessage span
  kind (d : Diagnostics) : (run.record d).kind = some .syntactic
  message (d : Diagnostics) (words : span.InWords) : (run.record d).message = stopMessage span
  tokens (d : Diagnostics) : (run.record d).parser.tokens = count
  shifts (d : Diagnostics) : (run.record d).parser.shifts = count

variable {tokens : TokenList Lexeme}

theorem returnsList_of_elements (unmarked : ∀ t ∈ tokens, t.terminal ≠ .finish)
    (elements : ∀ t ∈ tokens, t.terminal ≠ .stop) :
    ReturnsList tokens (parseTables.parse tokens) := by
  obtain ⟨result, counters⟩ := parse_elements unmarked elements
  refine ⟨result, ?_, ?_, counters⟩
  · rw [Tree.depth_eq_height, height_listTree, Array.length_toList]
  · rw [Tree.nodeCount_eq_size, size_listTree, Array.length_toList]

theorem append_span (front : String) (span : Span) :
    front ++ toString span.start ++ ".." ++ toString span.stop = front ++ toString span := by
  change _ = front ++ (toString span.start ++ ".." ++ toString span.stop)
  simp only [String.append_assoc]

theorem stopMessage_eq (span : Span) :
    stopMessage span = "unexpected STOP at " ++ toString span :=
  append_span "unexpected STOP at " span

/-- The message is short enough to be stored in full. -/
theorem stored_stopMessage {span : Span} (words : span.InWords) :
    Diagnostics.stored [stopMessage span] = stopMessage span := by
  apply Diagnostics.stored_singleton
  have front : "unexpected STOP at ".utf8ByteSize = 19 := by decide
  have size := words.utf8ByteSize_le
  rw [stopMessage_eq, String.utf8ByteSize_append, front]
  show 19 + _ ≤ 256
  omega

theorem message_stop (span : Span) :
    (ParseFailure.unexpectedToken ⟨.stop, span⟩ :
      ParseFailure Lexeme Phrase Production).message = stopMessage span := by
  have front : "unexpected " ++ Labelled.label Lexeme.stop ++ " at " = "unexpected STOP at " := by
    decide
  rw [stopMessage_eq, ← front]
  rfl

theorem failsAtStop_of_first (unmarked : ∀ t ∈ tokens, t.terminal ≠ .finish) {i : Nat} {span : Span}
    (read : tokens[i]? = some ⟨.stop, span⟩)
    (first : ∀ u ∈ tokens.toList.take i, u.terminal ≠ .stop) :
    FailsAtStop span i (parseTables.parse tokens) := by
  obtain ⟨result, counts⟩ := parse_stop unmarked read rfl first
  refine ⟨result, message_stop span, fun d => ?_, fun d words => ?_, fun d => (counts d).1,
    fun d => (counts d).2⟩
  · simp [ParseRun.record, result, Diagnostics.report, ParseFailure.kind]
  · simp only [ParseRun.record, result, Diagnostics.report, message_stop]
    exact stored_stopMessage words

/-- No action of the lexer appends an end mark. -/
theorem terminal?_ne_finish (mode : Mode) (rule : Rule) :
    (lexAction mode rule).terminal? ≠ some .finish := by
  cases mode <;> cases rule <;> nofun

variable {src : Source}

/-- The tokens of a source are no end marks and lie in it. -/
theorem proper_of_lex (h : (lexer.lex src).result = .ok tokens) :
    ∀ t ∈ tokens, t.terminal ≠ .finish ∧ t.span.Fits src := by
  obtain ⟨steps, mode, completes, collected⟩ := Lexer.exists_completes_of_result h
  intro t mem
  have emitted : t ∈ lexer.emitted src steps mode := collected ▸ Array.mem_toList_iff.mpr mem
  refine ⟨?_, completes.covering.fits t emitted⟩
  intro isEnd
  rcases List.mem_append.mp emitted with inSteps | last
  · obtain ⟨s, _, token⟩ := List.mem_filterMap.mp inSteps
    have appended := (Lexer.tokenOf?_eq_some token).2
    rw [isEnd] at appended
    exact terminal?_ne_finish _ _ appended
  · obtain ⟨terminal, appended, rfl⟩ := Option.map_eq_some_iff.mp (Option.mem_toList.mp last)
    subst isEnd
    exact terminal?_ne_finish _ _ appended

/-- Lexing is scanning and succeeds for legal sources. Parsing the tokens of a source succeeds if
none of them is a stop mark, with the list of all of them, and otherwise fails at the first stop
mark, having consumed the tokens in front of it. -/
theorem lex_parse_list : ∃ pipeline, pipeline? = .ok pipeline ∧ ∀ src : Source,
    (pipeline.lexer.lex src).result = (scan 0 src.toList).map List.toArray ∧
    ((∃ tokens, (pipeline.lexer.lex src).result = .ok tokens) ↔ Legal false src.toList) ∧
    ∀ tokens, (pipeline.lexer.lex src).result = .ok tokens →
      ((∃ t, (pipeline.parser.parse tokens).result = .ok t) ↔
        ∀ t ∈ tokens, t.terminal ≠ .stop) ∧
      ((∀ t ∈ tokens, t.terminal ≠ .stop) →
        ReturnsList tokens (pipeline.parser.parse tokens)) ∧
      (∀ (i : Nat) (span : Span), tokens[i]? = some ⟨.stop, span⟩ →
        (∀ t ∈ tokens.toList.take i, t.terminal ≠ .stop) →
        FailsAtStop span i (pipeline.parser.parse tokens) ∧ span.Fits src) := by
  refine ⟨⟨lexer, parseTables⟩, by rw [pipeline?, lexer?_eq]; rfl, ?_⟩
  intro src
  have scanned : (lexer.lex src).result = (scan 0 src.toList).map List.toArray :=
    (scan_scans (Nat.zero_le _) rfl).result_eq
  refine ⟨scanned, ?_, ?_⟩
  · rw [scanned, exists_map_eq_ok_iff]
    exact exists_scan_eq_ok_iff 0 src.toList
  · intro tokens lexed
    have proper := proper_of_lex lexed
    have unmarked : ∀ t ∈ tokens, t.terminal ≠ .finish := fun t mem => (proper t mem).1
    refine ⟨⟨?_, ?_⟩, returnsList_of_elements unmarked, ?_⟩
    · rintro ⟨tree, parsed⟩
      exact elements_of_parse unmarked parsed
    · intro elements
      exact ⟨_, (returnsList_of_elements unmarked elements).result⟩
    · intro i span read first
      exact ⟨failsAtStop_of_first unmarked read first, (proper _ (Array.mem_of_getElem? read)).2⟩

/-- A pair and an item from a run of three letters, and a stop mark. -/
def stoppedTokens : TokenList Lexeme :=
  #[⟨.pair, ⟨0, 2⟩⟩, ⟨.item, ⟨2, 3⟩⟩, ⟨.stop, ⟨3, 4⟩⟩]

/-- Behind the letters a comment is closed, and then parsing fails at the semicolon. -/
theorem lex_parse_stopped : ∃ pipeline, pipeline? = .ok pipeline ∧
    Legal false [letter, letter, letter, semicolon, hash, newline] ∧
    (pipeline.lexer.lex #[letter, letter, letter, semicolon, hash, newline]).result =
      .ok stoppedTokens ∧
    FailsAtStop ⟨3, 4⟩ 2 (pipeline.parser.parse stoppedTokens) := by
  obtain ⟨pipeline, made, runs⟩ := lex_parse_list
  obtain ⟨scans, legal, parses⟩ := runs #[letter, letter, letter, semicolon, hash, newline]
  have scanned : scan 0 [letter, letter, letter, semicolon, hash, newline] =
      .ok stoppedTokens.toList := by
    decide +kernel
  have lexed := scans.trans (congrArg _ scanned)
  refine ⟨pipeline, made, legal.mp ⟨_, lexed⟩, lexed, ?_⟩
  exact ((parses _ lexed).2.2 2 ⟨3, 4⟩ rfl (by decide)).1

end ItemList

end TableParsing
