import TableParsing.Proofs.Expression.Lexicon
import TableParsing.Proofs.Lexing.Scanning

/-!
# A direct scanner for expressions

`scan` goes through bytes once and knows neither patterns nor modes: the kind of a byte tells what
begins there, and a comment goes to the first `*/` behind its opening. Lexing with the tables of
expressions comes to the same, for all byte sequences.

Outside of comments, whatever the scanner reads is one step of the lexer. A comment is several: runs
of bytes that are not stars, single stars, and the closing pair.
-/

namespace TableParsing

namespace Expression

/-- The number of bytes up to the end of the first `*/`. -/
def closing? : List UInt8 → Option Nat
  | [] => none
  | b :: rest =>
    if b = star ∧ rest.head? = some slash then some 2 else (closing? rest).map (· + 1)

/-- The tokens in bytes that begin at an offset, or the first fault. -/
def scan (offset : Nat) (bytes : List UInt8) : Except LexFailure (List (Token Lexeme)) :=
  match bytes with
  | [] => .ok []
  | b :: rest =>
    match kind b with
    | .blank =>
      let length := (rest.takeWhile blanks.contains).length + 1
      scan (offset + length) (rest.dropWhile blanks.contains)
    | .digit =>
      let length := (rest.takeWhile digits.contains).length + 1
      (scan (offset + length) (rest.dropWhile digits.contains)).map
        (⟨.num, ⟨offset, offset + length⟩⟩ :: ·)
    | .letter =>
      let length := (rest.takeWhile wordBytes.contains).length + 1
      (scan (offset + length) (rest.dropWhile wordBytes.contains)).map
        (⟨.ident, ⟨offset, offset + length⟩⟩ :: ·)
    | .sign t =>
      if t = .divide ∧ rest.head? = some star then
        match closing? rest.tail with
        | some n => scan (offset + 2 + n) (rest.tail.drop n)
        | none => .error (.rejected "unterminated comment" (offset + bytes.length))
      else (scan (offset + 1) rest).map (⟨t, ⟨offset, offset + 1⟩⟩ :: ·)
    | .illegal => .error (.unmatched b offset)
termination_by bytes.length
decreasing_by
  · have := (List.dropWhile_sublist (l := rest) blanks.contains).length_le
    simp only [List.length_cons]
    omega
  · have := (List.dropWhile_sublist (l := rest) digits.contains).length_le
    simp only [List.length_cons]
    omega
  · have := (List.dropWhile_sublist (l := rest) wordBytes.contains).length_le
    simp only [List.length_cons]
    omega
  · simp only [List.length_drop, List.length_tail, List.length_cons]
    omega
  · simp

section Simulation

variable {src : Source} {offset : Nat} {bytes rest : List UInt8} {b : UInt8}
variable {result : Except LexFailure (List (Token Lexeme))}

theorem closing?_cons (continues : ¬ (b = star ∧ rest.head? = some slash)) :
    closing? (b :: rest) = (closing? rest).map (· + 1) := by
  rw [closing?, if_neg continues]

/-- A run without stars comes before the end of a comment. -/
theorem closing?_run (rest : List UInt8) :
    closing? rest = (closing? (rest.dropWhile plainBytes.contains)).map
      (· + (rest.takeWhile plainBytes.contains).length) := by
  induction rest with
  | nil => rfl
  | cons b rest ih =>
      rw [List.dropWhile_cons, List.takeWhile_cons]
      split
      · next plain =>
          have notStar : b ≠ star := by
            rintro rfl
            exact absurd plain (by decide)
          rw [closing?_cons fun h => notStar h.1, ih, Option.map_map]
          rfl
      · exact Option.map_id'.symm

theorem closing?_le {n : Nat} (closes : closing? bytes = some n) : n ≤ bytes.length := by
  induction bytes generalizing n with
  | nil => cases closes
  | cons b rest ih =>
      by_cases here : b = star ∧ rest.head? = some slash
      · rw [closing?, if_pos here] at closes
        obtain rfl := Option.some.inj closes
        obtain ⟨later, rfl⟩ := List.head?_eq_some_iff.mp here.2
        simp
      · rw [closing?_cons here] at closes
        obtain ⟨m, found, rfl⟩ := Option.map_eq_some_iff.mp closes
        exact Nat.succ_le_succ (ih found)

/-- What comes of the rest of a source in which a comment is open, given how many bytes it goes on
and what the lexer does behind it. -/
def Behind (src : Source) (offset : Nat) (result : Except LexFailure (List (Token Lexeme))) :
    Option Nat → Prop
  | some n => lexer.Scans src .expr (offset + n) result
  | none => result = .error (.rejected "unterminated comment" src.size)

theorem Behind.skip {m : Nat} {length? : Option Nat}
    (h : Behind src offset result (length?.map (· + m))) :
    Behind src (offset + m) result length? := by
  cases length? with
  | none => exact h
  | some n =>
      have sum : offset + m + n = offset + (n + m) := by omega
      show lexer.Scans src .expr (offset + m + n) result
      rw [sum]
      exact h

/-- The lexer goes through a comment up to the first `*/`. -/
theorem scans_comment (bytes : List UInt8) (offset : Nat) (le : offset ≤ src.size)
    (remaining : src.toList.drop offset = bytes) (h : Behind src offset result (closing? bytes)) :
    lexer.Scans src .comment offset result := by
  match bytes with
  | [] =>
      have atEnd : src.size ≤ offset := by simpa using List.drop_eq_nil_iff.mp remaining
      obtain rfl := Nat.le_antisymm le atEnd
      obtain rfl : result = _ := h
      exact Lexer.Stops.scans (.rejectedEnd rfl rfl)
  | b :: rest =>
      by_cases isStar : b = star
      · subst isStar
        have takes := takes_star remaining
        split at takes
        · next closes =>
            rw [closing?, if_pos ⟨rfl, closes⟩] at h
            exact .pass takes (.inl rfl) h
        · next continues =>
            rw [closing?_cons fun both => continues both.2] at h
            refine .pass takes (.inr ⟨rfl, rfl⟩) ?_
            exact scans_comment rest _ takes.le_size (drop_byte remaining) h.skip
      · have takes := takes_plain remaining isStar
        have closing : closing? (b :: rest) = (closing? (rest.dropWhile plainBytes.contains)).map
            (· + ((rest.takeWhile plainBytes.contains).length + 1)) := by
          rw [closing?_cons fun both => isStar both.1, closing?_run, Option.map_map]
          rfl
        rw [closing] at h
        have shorter := (List.dropWhile_sublist (l := rest) plainBytes.contains).length_le
        refine .pass takes (.inr ⟨rfl, rfl⟩) ?_
        exact scans_comment _ _ takes.le_size (drop_run plainBytes.contains remaining) h.skip
termination_by bytes.length

theorem drop_opening (remaining : src.toList.drop offset = b :: rest) :
    src.toList.drop (offset + 2) = rest.tail := by
  rw [← List.drop_drop, remaining, List.drop_succ_cons, List.drop_one]

/-- The lexer goes through an opening and the comment behind it. -/
theorem scans_opening (remaining : src.toList.drop offset = b :: rest)
    (sign : kind b = .sign .divide) (opens : rest.head? = some star)
    (h : Behind src (offset + 2) result (closing? rest.tail)) :
    lexer.Scans src .expr offset result := by
  have takes := takes_opening remaining sign opens
  exact .pass takes (.inl rfl) (scans_comment _ _ takes.le_size (drop_opening remaining) h)

/-- The lexer does what the scan says. -/
theorem scan_scans (le : offset ≤ src.size) (remaining : src.toList.drop offset = bytes) :
    lexer.Scans src .expr offset (scan offset bytes) := by
  fun_induction scan offset bytes with
  | case1 offset =>
      have atEnd : src.size ≤ offset := by simpa using List.drop_eq_nil_iff.mp remaining
      obtain rfl := Nat.le_antisymm le atEnd
      exact ⟨[], .expr, .nil, nofun, rfl⟩
  | case2 offset b rest blank length ih =>
      have takes := takes_run remaining (congrArg afterKind blank)
      exact .pass takes (.inr ⟨rfl, rfl⟩) (ih takes.le_size (drop_run _ remaining))
  | case3 offset b rest digit length ih =>
      have takes := takes_run remaining (congrArg afterKind digit)
      exact .emit takes rfl (ih takes.le_size (drop_run _ remaining))
  | case4 offset b rest letter length ih =>
      have takes := takes_run remaining (congrArg afterKind letter)
      exact .emit takes rfl (ih takes.le_size (drop_run _ remaining))
  | case5 offset b rest t sign opens n closes ih =>
      obtain ⟨rfl, opens⟩ := opens
      have opening := (takes_opening remaining sign opens).le_size
      have inside : offset + 2 + n ≤ src.size := by
        have := closing?_le closes
        rw [← drop_opening remaining, List.length_drop, Array.length_toList] at this
        dsimp only at opening
        omega
      refine scans_opening remaining sign opens ?_
      rw [closes]
      exact ih inside (by rw [← List.drop_drop, drop_opening remaining])
  | case6 offset b rest t sign opens open' =>
      obtain ⟨rfl, opens⟩ := opens
      have size : offset + (b :: rest).length = src.size := by
        rw [← remaining, List.length_drop, Array.length_toList]
        omega
      refine scans_opening remaining sign opens ?_
      rw [open', size]
      rfl
  | case7 offset b rest t sign alone ih =>
      obtain ⟨p, takes, action⟩ := takes_sign remaining sign alone
      exact .emit takes action (ih takes.le_size (drop_byte remaining))
  | case8 offset b rest illegal =>
      obtain ⟨read, _⟩ := getElem?_of_drop remaining
      exact Lexer.Stops.scans (.unmatched rfl (Automaton.refusal?_eq_none rfl rfl _)
        (Array.getElem?_toList.symm.trans read) (unseen_illegal read illegal))

/-- Lexing is scanning. -/
theorem result_lex (src : Source) :
    (lexer.lex src).result = (scan 0 src.toList).map List.toArray :=
  (scan_scans (Nat.zero_le _) rfl).result_eq

/-- What a scan stops for: a byte with which nothing begins, or a comment without an end. -/
inductive Fault (src : Source) : LexFailure → Prop where
  | illegal {b : UInt8} {n : Nat} (read : src[n]? = some b) (illegal : kind b = .illegal) :
      Fault src (.unmatched b n)
  | unterminated : Fault src (.rejected "unterminated comment" src.size)

theorem eq_error_of_map {α β : Type} {g : α → β} {f : LexFailure} {r : Except LexFailure α}
    (h : r.map g = .error f) : r = .error f := by
  cases r with
  | error e => exact congrArg Except.error (Except.error.inj h)
  | ok x => cases h

/-- A scan fails for a fault. -/
theorem fault_of_scan (remaining : src.toList.drop offset = bytes) :
    ∀ f, scan offset bytes = .error f → Fault src f := by
  fun_induction scan offset bytes with
  | case1 => nofun
  | case2 offset b rest blank length ih => exact ih (drop_run _ remaining)
  | case3 offset b rest digit length ih | case4 offset b rest letter length ih =>
      exact fun f failed => ih (drop_run _ remaining) f (eq_error_of_map failed)
  | case5 offset b rest t sign opens n closes ih =>
      exact ih (by rw [← List.drop_drop, drop_opening remaining])
  | case6 offset b rest =>
      rintro _ ⟨rfl⟩
      have size : offset + (b :: rest).length = src.size := by
        rw [← remaining, List.length_drop, Array.length_toList]
        have := congrArg List.length remaining
        simp only [List.length_drop, List.length_cons, Array.length_toList] at this
        omega
      rw [size]
      exact .unterminated
  | case7 offset b rest t sign alone ih =>
      exact fun f failed => ih (drop_byte remaining) f (eq_error_of_map failed)
  | case8 offset b rest illegal =>
      rintro _ ⟨rfl⟩
      obtain ⟨read, _⟩ := getElem?_of_drop remaining
      exact .illegal (Array.getElem?_toList.symm.trans read) illegal

/-- A fault of a scan is what lexing fails for. -/
theorem fails_of_scan {f : LexFailure} (scanned : scan 0 src.toList = .error f) :
    lexer.Fails src f ∧ Fault src f := by
  have scans : lexer.Scans src .expr 0 (scan 0 src.toList) := scan_scans (Nat.zero_le _) rfl
  rw [scanned] at scans
  obtain ⟨steps, mode, chain, stops⟩ := scans
  exact ⟨chain.fails stops, fault_of_scan rfl f scanned⟩

/-- Faults of expressions are reported in full in sources of machine size. -/
theorem Fault.short {f : LexFailure} (h : Fault src f) :
    ∀ reason n, f = .rejected reason n → reason.utf8ByteSize ≤ 181 := by
  rintro reason n rfl
  cases h with
  | unterminated => decide

end Simulation

/-- The text for a fault of a scan at an offset, given what is wrong there. -/
def faultText (src : Source) (what : String) (offset : Nat) : String :=
  what ++ " at offset " ++ toString offset ++ " (" ++ toString (Position.locate src offset) ++ ")"

theorem Fault.message_eq {src : Source} {f : LexFailure} (h : Fault src f) :
    (∃ b, src[f.offset]? = some b ∧ kind b = .illegal ∧
        f.message src = faultText src ("no terminal matches byte " ++ Quoted.byte b) f.offset) ∨
      f.offset = src.size ∧ f.message src = faultText src "unterminated comment" f.offset := by
  have words : " at offset " = " " ++ "at offset " := rfl
  cases h with
  | @illegal b n read illegal =>
      refine .inl ⟨b, read, illegal, ?_⟩
      rw [LexFailure.message_unmatched, LexFailure.place_eq, faultText, words]
      simp only [LexFailure.offset, String.append_assoc]
  | unterminated =>
      refine .inr ⟨rfl, ?_⟩
      rw [LexFailure.message_rejected, LexFailure.place_eq, faultText, words]
      simp only [LexFailure.offset, String.append_assoc]

/-- Lexing is scanning: it gives the tokens that a scan gives, and otherwise reports the first
illegal byte, or the end of a source that ends within a comment. -/
theorem lex_scan : ∃ pipeline, pipeline? = .ok pipeline ∧ ∀ src : Source,
    (pipeline.lexer.lex src).result = (scan 0 src.toList).map List.toArray ∧
      ∀ f, scan 0 src.toList = .error f →
        ((∃ b, src[f.offset]? = some b ∧ kind b = .illegal ∧
            f.message src = faultText src ("no terminal matches byte " ++ Quoted.byte b) f.offset) ∨
          f.offset = src.size ∧ f.message src = faultText src "unterminated comment" f.offset) ∧
        ∀ d : Diagnostics, ((pipeline.lexer.lex src).record src d).kind = some .lexical ∧
          (src.size < 2 ^ 64 →
            ((pipeline.lexer.lex src).record src d).message = f.message src) := by
  refine ⟨⟨lexer, parseTables⟩, by rw [pipeline?, lexer?_eq]; rfl, ?_⟩
  intro src
  refine ⟨result_lex src, ?_⟩
  intro f scanned
  obtain ⟨fails, fault⟩ := fails_of_scan scanned
  refine ⟨fault.message_eq, ?_⟩
  intro d
  refine ⟨fails.kind d, ?_⟩
  intro words
  exact (fails.message d).trans (fails.whole words fault.short)

end Expression

end TableParsing
