import TableParsing.Proofs.Expression.Layout
import TableParsing.Proofs.Lexing.Accounting

/-!
# Sources one behind the other

With layout between them, two sources are lexed one after the other. No token and no comment of the
first goes on with what is behind the layout, and the second is lexed as it would be by itself, only
at other offsets. `scan_append` is the first half of this and `scan_add` the second.

The first source has to lex. If it ends within a comment, say, the comment goes on in the second.
-/

namespace TableParsing

/-- The same token, a number of bytes later. -/
def Token.delayed {T : Type} (n : Nat) (t : Token T) : Token T :=
  ⟨t.terminal, ⟨n + t.span.start, n + t.span.stop⟩⟩

/-- A token that comes later is as long. -/
@[simp] theorem Token.length_delayed {T : Type} (n : Nat) (t : Token T) :
    (t.delayed n).span.length = t.span.length :=
  Nat.add_sub_add_left n t.span.stop t.span.start

namespace LexFailure

def delayed (n : Nat) : LexFailure → LexFailure
  | .unmatched b offset => .unmatched b (n + offset)
  | .rejected reason offset => .rejected reason (n + offset)
  | .refused refusal offset => .refused refusal (n + offset)

@[simp] theorem offset_delayed (f : LexFailure) (n : Nat) :
    (f.delayed n).offset = n + f.offset := by
  cases f <;> rfl

@[simp] theorem delayed_zero (f : LexFailure) : f.delayed 0 = f := by
  cases f <;> simp [delayed]

end LexFailure

namespace Expression

def delayed (n : Nat) :
    Except LexFailure (List (Token Lexeme)) → Except LexFailure (List (Token Lexeme))
  | .ok tokens => .ok (tokens.map (Token.delayed n))
  | .error f => .error (f.delayed n)

/-- A token in front of a result is delayed with it. -/
theorem delayed_map (n : Nat) (t : Token Lexeme)
    (result : Except LexFailure (List (Token Lexeme))) :
    delayed n (result.map (t :: ·)) = (delayed n result).map (t.delayed n :: ·) := by
  cases result <;> rfl

/-- Where a scan begins decides only where it finds tokens and faults. -/
theorem scan_add (n offset : Nat) (bytes : List UInt8) :
    scan (n + offset) bytes = delayed n (scan offset bytes) := by
  fun_induction scan offset bytes with
  | case1 => rw [scan]; rfl
  | case2 offset b rest blank length ih =>
      rw [scan]
      simp only [blank]
      rw [Nat.add_assoc]
      exact ih
  | case3 offset b rest digit length ih =>
      rw [scan]
      simp only [digit]
      rw [Nat.add_assoc, delayed_map, ← ih]
      rfl
  | case4 offset b rest letter length ih =>
      rw [scan]
      simp only [letter]
      rw [Nat.add_assoc, delayed_map, ← ih]
      rfl
  | case5 offset b rest t sign opens stop closes ih =>
      rw [scan]
      simp only [sign, if_pos opens, closes]
      rw [Nat.add_assoc, Nat.add_assoc, ← Nat.add_assoc offset]
      exact ih
  | case6 offset b rest t sign opens unclosed =>
      rw [scan]
      simp only [sign, if_pos opens, unclosed]
      rw [Nat.add_assoc]
      rfl
  | case7 offset b rest t sign alone ih =>
      rw [scan]
      simp only [sign, if_neg alone]
      rw [Nat.add_assoc, delayed_map, ← ih]
      rfl
  | case8 offset b rest illegal =>
      rw [scan]
      simp only [illegal]
      rfl

variable {offset : Nat} {rest behind : List UInt8} {tokens : List (Token Lexeme)}

/-- A run does not go on with what none of its bytes can be. -/
theorem run_append_of_head {p : UInt8 → Bool} (rest : List UInt8)
    (ends : ∀ b ∈ behind.head?, p b = false) :
    (rest ++ behind).takeWhile p = rest.takeWhile p ∧
      (rest ++ behind).dropWhile p = rest.dropWhile p ++ behind := by
  induction rest with
  | nil =>
      have empty : ∀ d ∈ ([] : List UInt8), p d := nofun
      exact run_append empty ends
  | cons b rest ih =>
      obtain ⟨taken, dropped⟩ := ih
      by_cases more : p b
      · simp [more, taken, dropped]
      · simp [more]

/-- The end of a comment is there whatever comes behind it. -/
theorem closing?_append {n : Nat} (closes : closing? rest = some n) (behind : List UInt8) :
    closing? (rest ++ behind) = some n := by
  induction rest generalizing n with
  | nil => cases closes
  | cons b rest ih =>
      by_cases here : b = star ∧ rest.head? = some slash
      · obtain ⟨rfl, next⟩ := here
        obtain ⟨rest, rfl⟩ := List.head?_eq_some_iff.mp next
        rw [closing?, if_pos ⟨rfl, rfl⟩] at closes
        obtain rfl := Option.some.inj closes
        exact if_pos ⟨rfl, rfl⟩
      · rw [closing?_cons here] at closes
        obtain ⟨m, closes', rfl⟩ := Option.map_eq_some_iff.mp closes
        have continues : ¬ (b = star ∧ (rest ++ behind).head? = some slash) := by
          -- The comment is closed behind this byte, so there is something left of it.
          cases rest with
          | nil => cases closes'
          | cons a rest => exact here
        rw [List.cons_append, closing?_cons continues, ih closes']
        rfl

theorem blanks_of_kind {b : UInt8} (h : kind b = .blank) : blanks.contains b := by
  simpa [(contains_eq b).1] using h

theorem layout_of_blanks {run : List UInt8} (blank : ∀ b ∈ run, blanks.contains b) :
    Layout run := by
  induction run with
  | nil => exact .nil
  | cons b run ih =>
      exact .blank (blank b List.mem_cons_self)
        (ih fun a mem => blank a (List.mem_cons_of_mem b mem))

/-- A scan that finds a token first has found the other tokens behind it. -/
theorem exists_of_map_cons {t : Token Lexeme} {result : Except LexFailure (List (Token Lexeme))}
    (scanned : result.map (t :: ·) = .ok tokens) :
    ∃ later, result = .ok later ∧ tokens = t :: later := by
  cases result with
  | error f => cases scanned
  | ok later => exact ⟨later, rfl, (Except.ok.inj scanned).symm⟩

/-- A token and the tokens behind it, put in front of a result. -/
theorem map_append_cons (t : Token Lexeme) (later : List (Token Lexeme))
    (result : Except LexFailure (List (Token Lexeme))) :
    (result.map (later ++ ·)).map (t :: ·) = result.map (t :: later ++ ·) := by
  cases result <;> rfl

/-- What is left behind a run ends where the whole ends. -/
theorem after_run (p : UInt8 → Bool) (b : UInt8) (rest : List UInt8) (offset : Nat) :
    offset + ((rest.takeWhile p).length + 1) + (rest.dropWhile p).length =
      offset + (b :: rest).length := by
  have parts := congrArg List.length (List.takeWhile_append_dropWhile (p := p) (l := rest))
  rw [List.length_append] at parts
  rw [List.length_cons]
  omega

/-- If bytes are scanned to their end, they are scanned in the same way in front of what is apart
from them. -/
theorem scan_append (apart : Apart behind) : ∀ tokens, scan offset rest = .ok tokens →
    scan offset (rest ++ behind) = (scan (offset + rest.length) behind).map (tokens ++ ·) := by
  have stops := apart.head
  fun_induction scan offset rest with
  | case1 offset =>
      rintro tokens ⟨rfl⟩
      show scan offset behind = (scan offset behind).map ([] ++ ·)
      cases scan offset behind <;> rfl
  | case2 offset b rest blank length ih =>
      intro tokens scanned
      -- The run may go on behind the bytes, so it is skipped only as far as they go.
      have run : Layout (b :: rest.takeWhile blanks.contains) :=
        .blank (blanks_of_kind blank) (layout_of_blanks fun a mem => List.mem_takeWhile_imp mem)
      have split : b :: rest ++ behind =
          (b :: rest.takeWhile blanks.contains) ++ (rest.dropWhile blanks.contains ++ behind) := by
        rw [List.cons_append, List.cons_append, ← List.append_assoc,
          List.takeWhile_append_dropWhile]
      rw [split, scan_layout run, List.length_cons, ih tokens scanned, after_run]
  | case3 offset b rest digit length ih =>
      intro tokens scanned
      obtain ⟨later, found, rfl⟩ := exists_of_map_cons scanned
      obtain ⟨taken, dropped⟩ := run_append_of_head rest fun b mem => (stops b mem).1
      rw [List.cons_append, scan]
      simp only [digit, taken, dropped]
      rw [ih later found, map_append_cons, after_run]
  | case4 offset b rest letter length ih =>
      intro tokens scanned
      obtain ⟨later, found, rfl⟩ := exists_of_map_cons scanned
      obtain ⟨taken, dropped⟩ := run_append_of_head rest fun b mem => (stops b mem).2.1
      rw [List.cons_append, scan]
      simp only [letter, taken, dropped]
      rw [ih later found, map_append_cons, after_run]
  | case5 offset b rest t sign opens stop closes ih =>
      intro tokens scanned
      obtain ⟨rfl, opens⟩ := opens
      obtain ⟨body, rfl⟩ := List.head?_eq_some_iff.mp opens
      have closes' : closing? body = some stop := closes
      have again := closing?_append closes' behind
      have le := closing?_le closes'
      have dropped : (body ++ behind).drop stop = body.drop stop ++ behind :=
        List.drop_append_of_le_length le
      have ends : offset + 2 + stop + (body.drop stop).length =
          offset + (b :: star :: body).length := by
        rw [List.length_drop, List.length_cons, List.length_cons]
        omega
      rw [List.cons_append, scan]
      simp only [sign, List.cons_append, List.head?_cons, List.tail_cons, again, dropped, and_self,
        if_true]
      rw [← ends]
      exact ih tokens scanned
  | case6 =>
      intro tokens scanned
      cases scanned
  | case7 offset b rest t sign alone ih =>
      intro tokens scanned
      obtain ⟨later, found, rfl⟩ := exists_of_map_cons scanned
      have alone' : ¬ (t = .divide ∧ (rest ++ behind).head? = some star) := by
        rintro ⟨rfl, opens⟩
        cases rest with
        | nil => exact (stops star opens).2.2 rfl
        | cons a rest => exact alone ⟨rfl, opens⟩
      rw [List.cons_append, scan]
      simp only [sign, if_neg alone']
      rw [ih later found, map_append_cons, List.length_cons, Nat.add_right_comm, Nat.add_assoc]
  | case8 =>
      intro tokens scanned
      cases scanned

/-- What is wrong is said in the same words wherever the fault is found. -/
theorem Fault.exists_words {src : Source} {f : LexFailure} (h : Fault src f) :
    ∃ what, ∀ n whole, (f.delayed n).message whole = faultText whole what (n + f.offset) := by
  have words : " at offset " = " " ++ "at offset " := rfl
  cases h with
  | @illegal b k read illegal =>
      refine ⟨"no terminal matches byte " ++ Quoted.byte b, ?_⟩
      intro n whole
      rw [LexFailure.delayed, LexFailure.message_unmatched, LexFailure.place_eq, faultText, words]
      simp only [LexFailure.offset, String.append_assoc]
  | unterminated =>
      refine ⟨"unterminated comment", ?_⟩
      intro n whole
      rw [LexFailure.delayed, LexFailure.message_rejected, LexFailure.place_eq, faultText, words]
      simp only [LexFailure.offset, String.append_assoc]

/-- Blanks between two sources part them. -/
theorem scan_parted {s w t : Source} {tokens : List (Token Lexeme)}
    (scanned : scan 0 s.toList = .ok tokens) (nonempty : w ≠ #[])
    (blank : ∀ b ∈ w, blanks.contains b) :
    scan 0 (s ++ w ++ t).toList =
      (delayed (s.size + w.size) (scan 0 t.toList)).map (tokens ++ ·) := by
  have layout : Layout w.toList :=
    layout_of_blanks fun b mem => blank b (Array.mem_toList_iff.mp mem)
  have apart : Apart (w.toList ++ t.toList) := layout.apart (by simpa using nonempty) t.toList
  rw [Array.toList_append, Array.toList_append, List.append_assoc, scan_append apart tokens scanned,
    scan_layout layout, ← scan_add, Array.length_toList, Array.length_toList, Nat.zero_add,
    Nat.add_zero]

/-- If both sources are lexed, the tokens of the second come behind those of the first. -/
theorem result_parted {s w t : Source} {tokens found : TokenList Lexeme}
    (lexed : (lexer.lex s).result = .ok tokens) (nonempty : w ≠ #[])
    (blank : ∀ b ∈ w, blanks.contains b) (lexed' : (lexer.lex t).result = .ok found) :
    (lexer.lex (s ++ w ++ t)).result =
      .ok (tokens ++ found.map (Token.delayed (s.size + w.size))) := by
  rw [result_eq_ok_iff, scan_parted (result_eq_ok_iff.mp lexed) nonempty blank,
    result_eq_ok_iff.mp lexed']
  simp [delayed, Except.map]

/-- If both sources are lexed, no byte but the blanks is skipped in addition. -/
theorem skipped_parted {s w t : Source} {tokens found : TokenList Lexeme}
    (lexed : (lexer.lex s).result = .ok tokens) (nonempty : w ≠ #[])
    (blank : ∀ b ∈ w, blanks.contains b) (lexed' : (lexer.lex t).result = .ok found) :
    (lexer.lex (s ++ w ++ t)).progress.counters.skipped =
      (lexer.lex s).progress.counters.skipped + w.size +
        (lexer.lex t).progress.counters.skipped := by
  -- Tokens are as long as before, so what is left of each source is as long as before.
  have first := Lexer.skipped_add_covered lexed
  have second := Lexer.skipped_add_covered lexed'
  have both := Lexer.skipped_add_covered (result_parted lexed nonempty blank lexed')
  simp only [Array.toList_append, Array.toList_map, List.map_append, List.map_map,
    List.sum_append, Function.comp_def, Token.length_delayed, Array.size_append] at both
  omega

/-- If only the first source is lexed, the whole fails for what the second fails for. -/
theorem fails_parted {s w t : Source} {tokens : TokenList Lexeme} {f : LexFailure}
    (lexed : (lexer.lex s).result = .ok tokens) (nonempty : w ≠ #[])
    (blank : ∀ b ∈ w, blanks.contains b) (failed : scan 0 t.toList = .error f) :
    lexer.Fails (s ++ w ++ t) (f.delayed (s.size + w.size)) ∧
      Fault (s ++ w ++ t) (f.delayed (s.size + w.size)) := by
  apply fails_of_scan
  rw [scan_parted (result_eq_ok_iff.mp lexed) nonempty blank, failed]
  rfl

/-- With blanks between them, two sources of which the first is lexed are lexed one after the other:
the tokens of the second come behind those of the first, so many bytes later, and no byte but the
blanks is skipped in addition. If the second is not lexed, then neither is the whole, for the same
cause so many bytes later. -/
theorem lex_parted : ∃ pipeline, pipeline? = .ok pipeline ∧
    ∀ (s w t : Source) (tokens : TokenList Lexeme),
      (pipeline.lexer.lex s).result = .ok tokens → w ≠ #[] → (∀ b ∈ w, blanks.contains b) →
      (∀ found, (pipeline.lexer.lex t).result = .ok found →
        (pipeline.lexer.lex (s ++ w ++ t)).result =
            .ok (tokens ++ found.map (Token.delayed (s.size + w.size))) ∧
          (pipeline.lexer.lex (s ++ w ++ t)).progress.counters.skipped =
            (pipeline.lexer.lex s).progress.counters.skipped + w.size +
              (pipeline.lexer.lex t).progress.counters.skipped) ∧
      (∀ f, (pipeline.lexer.lex t).result = .error f →
        (pipeline.lexer.lex (s ++ w ++ t)).result = .error (f.delayed (s.size + w.size)) ∧
          (f.delayed (s.size + w.size)).offset = s.size + w.size + f.offset ∧
          (∃ what, f.message t = faultText t what f.offset ∧
            (f.delayed (s.size + w.size)).message (s ++ w ++ t) =
              faultText (s ++ w ++ t) what (s.size + w.size + f.offset)) ∧
          ∀ d : Diagnostics,
            ((pipeline.lexer.lex (s ++ w ++ t)).record (s ++ w ++ t) d).kind = some .lexical ∧
            ((s ++ w ++ t).size < 2 ^ 64 →
              ((pipeline.lexer.lex (s ++ w ++ t)).record (s ++ w ++ t) d).message =
                (f.delayed (s.size + w.size)).message (s ++ w ++ t))) := by
  refine ⟨⟨lexer, parseTables⟩, by rw [pipeline?, lexer?_eq]; rfl, ?_⟩
  intro s w t tokens lexed nonempty blank
  constructor
  · intro found lexed'
    exact ⟨result_parted lexed nonempty blank lexed', skipped_parted lexed nonempty blank lexed'⟩
  · intro f failed
    have scanned := result_eq_error_iff.mp failed
    obtain ⟨fails, fault⟩ := fails_parted lexed nonempty blank scanned
    obtain ⟨what, words⟩ := (fails_of_scan scanned).2.exists_words
    refine ⟨fails.result, f.offset_delayed _, ⟨what, ?_, words _ _⟩, ?_⟩
    · have here := words 0 t
      rwa [LexFailure.delayed_zero, Nat.zero_add] at here
    · intro d
      refine ⟨fails.kind d, ?_⟩
      intro machine
      exact (fails.message d).trans (fails.whole machine fault.short)

/-- Blanks at the end of one source, between both and at the front of the other are one run for the
lexer. They are counted as three. -/
theorem lex_parted_sum :
    (lexer.lex #[0x61, 0x20]).result = .ok #[⟨.ident, ⟨0, 1⟩⟩] ∧
    (lexer.lex #[0x20, 0x31]).result = .ok #[⟨.num, ⟨1, 2⟩⟩] ∧
    (lexer.lex #[0x31, 0x24]).result = .error (.unmatched 0x24 1) ∧
    (lexer.lex #[0x61, 0x20, 0x09, 0x20, 0x31]).result =
      .ok #[⟨.ident, ⟨0, 1⟩⟩, ⟨.num, ⟨4, 5⟩⟩] ∧
    (lexer.lex #[0x61, 0x20, 0x09, 0x20, 0x31]).progress.counters.skipped = 3 ∧
    (lexer.lex #[0x61, 0x20, 0x09, 0x31, 0x24]).result = .error (.unmatched 0x24 4) := by
  obtain ⟨pipeline, made, parted⟩ := lex_parted
  obtain rfl : pipeline = ⟨lexer, parseTables⟩ := by
    rw [pipeline?, lexer?_eq] at made
    exact (Except.ok.inj made).symm
  have first : (lexer.lex #[0x61, 0x20]).result = .ok #[⟨.ident, ⟨0, 1⟩⟩] := by decide +kernel
  have second : (lexer.lex #[0x20, 0x31]).result = .ok #[⟨.num, ⟨1, 2⟩⟩] := by decide +kernel
  have third : (lexer.lex #[0x31, 0x24]).result = .error (.unmatched 0x24 1) := by decide +kernel
  have counted : (lexer.lex #[0x61, 0x20]).progress.counters.skipped = 1 := by decide +kernel
  have counted' : (lexer.lex #[0x20, 0x31]).progress.counters.skipped = 1 := by decide +kernel
  have blank : ∀ b ∈ (#[0x09] : Source), blanks.contains b := by decide +kernel
  obtain ⟨both, -⟩ := parted #[0x61, 0x20] #[0x09] #[0x20, 0x31] _ first (by decide) blank
  obtain ⟨-, fails⟩ := parted #[0x61, 0x20] #[0x09] #[0x31, 0x24] _ first (by decide) blank
  obtain ⟨whole, skipped⟩ := both _ second
  obtain ⟨failed, -⟩ := fails _ third
  have joined : (#[0x61, 0x20] ++ #[0x09] ++ #[0x20, 0x31] : Source) =
      #[0x61, 0x20, 0x09, 0x20, 0x31] := rfl
  have joined' : (#[0x61, 0x20] ++ #[0x09] ++ #[0x31, 0x24] : Source) =
      #[0x61, 0x20, 0x09, 0x31, 0x24] := rfl
  have shifted : #[(⟨.ident, ⟨0, 1⟩⟩ : Token Lexeme)] ++ #[⟨.num, ⟨1, 2⟩⟩].map (.delayed 3) =
      #[⟨.ident, ⟨0, 1⟩⟩, ⟨.num, ⟨4, 5⟩⟩] := by simp [Token.delayed]
  rw [joined] at whole skipped
  rw [joined'] at failed
  refine ⟨first, second, third, whole.trans (congrArg Except.ok shifted), ?_, failed⟩
  exact skipped.trans (by rw [counted, counted']; rfl)

end Expression

end TableParsing
