import Mathlib.Data.List.TakeWhile
import TableParsing.Proofs.ItemList.Lexicon
import TableParsing.Proofs.Lexing.Scanning

/-!
# A direct scanner for lists

`scan` goes through bytes once. A run of letters is pairs as far as possible, so its parity decides
whether an item comes last; a comment goes to the end of the line. Lexing with the tables of lists
comes to the same, for all byte sequences.

A scan succeeds for the legal sources, in which only letters, semicolons, spaces and newlines stand
outside of comments and every comment ends. Legality is told byte by byte, by what stands in front
of a byte.
-/

namespace TableParsing

namespace ItemList

/-- The tokens of a run of letters at an offset: pairs as far as possible, and an item if a letter
is left. -/
def runTokens (offset length : Nat) : List (Token Lexeme) :=
  (List.range (length / 2)).map (fun i => ⟨.pair, ⟨offset + 2 * i, offset + 2 * i + 2⟩⟩) ++
    if length % 2 = 1 then [⟨.item, ⟨offset + length - 1, offset + length⟩⟩] else []

/-- The tokens in bytes that begin at an offset, or the first fault. -/
def scan (offset : Nat) (bytes : List UInt8) : Except LexFailure (List (Token Lexeme)) :=
  match bytes with
  | [] => .ok []
  | b :: rest =>
    match kind b with
    | .letter =>
      let length := (rest.takeWhile (· == letter)).length + 1
      (scan (offset + length) (rest.dropWhile (· == letter))).map (runTokens offset length ++ ·)
    | .semicolon => (scan (offset + 1) rest).map (⟨.stop, ⟨offset, offset + 1⟩⟩ :: ·)
    | .blank =>
      let length := (rest.takeWhile blanks.contains).length + 1
      scan (offset + length) (rest.dropWhile blanks.contains)
    | .hash =>
      match _h : rest.dropWhile lineBytes.contains with
      | [] => .error (.rejected "unterminated line comment" (offset + bytes.length))
      | _ :: later => scan (offset + 1 + (rest.takeWhile lineBytes.contains).length + 1) later
    | .illegal => .error (.unmatched b offset)
termination_by bytes.length
decreasing_by
  · have := (List.dropWhile_sublist (l := rest) (· == letter)).length_le
    simp only [List.length_cons]
    omega
  · simp
  · have := (List.dropWhile_sublist (l := rest) blanks.contains).length_le
    simp only [List.length_cons]
    omega
  · have := (List.dropWhile_sublist (l := rest) lineBytes.contains).length_le
    rw [_h] at this
    simp only [List.length_cons] at *
    omega

/-- A run of two more letters begins with a pair. -/
theorem runTokens_add_two (offset length : Nat) :
    runTokens offset (length + 2) =
      ⟨.pair, ⟨offset, offset + 2⟩⟩ :: runTokens (offset + 2) length := by
  have half : (length + 2) / 2 = length / 2 + 1 := by omega
  have parity : (length + 2) % 2 = length % 2 := by omega
  have last : offset + (length + 2) - 1 = offset + 2 + length - 1 := by omega
  have stop : offset + (length + 2) = offset + 2 + length := by omega
  rw [runTokens, runTokens, half, parity, last, stop, List.range_succ_eq_map, List.map_cons,
    List.map_map, List.cons_append]
  congr 2
  apply List.map_congr_left
  intro i _
  have shifted : offset + 2 * (i + 1) = offset + 2 + 2 * i := by omega
  simp only [Function.comp_apply, shifted]

/-- The first byte behind a run does not continue it. -/
theorem head?_dropWhile {p : UInt8 → Bool} {bytes : List UInt8} {b : UInt8}
    (h : (bytes.dropWhile p).head? = some b) : p b = false := by
  have ends := List.head?_dropWhile_not p bytes
  rwa [h] at ends

theorem eq_letter_of_mem {b c : UInt8} {rest : List UInt8} (first : kind b = .letter)
    (mem : c ∈ b :: rest.takeWhile (· == letter)) : c = letter := by
  rcases List.mem_cons.mp mem with rfl | inRun
  · exact (kind_eq_iff c).1.mp first
  · have same := List.mem_takeWhile_imp inRun
    exact eq_of_beq same

/-- A line goes on to a newline. -/
theorem head_eq_newline {bytes later : List UInt8} {b : UInt8}
    (h : bytes.dropWhile lineBytes.contains = b :: later) : b = newline := by
  have ends := head?_dropWhile (congrArg List.head? h)
  simpa [contains_lineBytes] using ends

theorem ne_newline_of_mem {bytes : List UInt8} {b : UInt8}
    (mem : b ∈ bytes.takeWhile lineBytes.contains) : b ≠ newline := by
  simpa [contains_lineBytes] using List.mem_takeWhile_imp mem

section Simulation

variable {src : Source} {offset : Nat} {bytes rest : List UInt8}
variable {result : Except LexFailure (List (Token Lexeme))}

/-- The lexer takes a run of letters as pairs, as far as possible. -/
theorem scans_run (n offset : Nat)
    (remaining : src.toList.drop offset = List.replicate n letter ++ rest)
    (ends : rest.head? ≠ some letter) (h : lexer.Scans src .main (offset + n) result) :
    lexer.Scans src .main offset (result.map (runTokens offset n ++ ·)) := by
  match n with
  | 0 => cases result <;> exact h
  | 1 => exact .emit (takes_item remaining rfl ends) rfl h
  | n + 2 =>
      have takes := takes_pair remaining rfl rfl
      have remaining' : src.toList.drop (offset + 2) = List.replicate n letter ++ rest := by
        rw [← List.drop_drop, remaining]
        rfl
      have stop : offset + (n + 2) = offset + 2 + n := by omega
      rw [stop] at h
      have all := Lexer.Scans.emit takes rfl (scans_run n (offset + 2) remaining' ends h)
      rw [runTokens_add_two]
      cases result <;> exact all

/-- Inside of a comment the lexer passes over the rest of the line. -/
theorem scans_line (remaining : src.toList.drop offset = bytes)
    (h : lexer.Scans src .comment (offset + (bytes.takeWhile lineBytes.contains).length) result) :
    lexer.Scans src .comment offset result := by
  match bytes with
  | [] => exact h
  | b :: rest =>
      rw [List.takeWhile_cons, contains_lineBytes] at h
      by_cases ends : b = newline
      · simpa [ends] using h
      · simp only [ends, decide_false, Bool.not_false, if_true] at h
        exact .pass (takes_line remaining ends) (.inr ⟨rfl, rfl⟩) h

/-- The lexer does what the scan says. -/
theorem scan_scans (le : offset ≤ src.size) (remaining : src.toList.drop offset = bytes) :
    lexer.Scans src .main offset (scan offset bytes) := by
  fun_induction scan offset bytes with
  | case1 offset =>
      have atEnd : src.size ≤ offset := by simpa using List.drop_eq_nil_iff.mp remaining
      obtain rfl := Nat.le_antisymm le atEnd
      exact ⟨[], .main, .nil, nofun, rfl⟩
  | case2 offset b rest isLetter length ih =>
      have run : b :: rest.takeWhile (· == letter) = List.replicate length letter :=
        List.eq_replicate_iff.mpr ⟨rfl, fun c mem => eq_letter_of_mem isLetter mem⟩
      have whole : src.toList.drop offset =
          List.replicate length letter ++ rest.dropWhile (· == letter) := by
        rw [remaining, ← run, List.cons_append, List.takeWhile_append_dropWhile]
      have inside : offset + length ≤ src.size := by
        have total := congrArg List.length whole
        simp only [List.length_drop, List.length_append, List.length_replicate,
          Array.length_toList] at total
        omega
      have ends : (rest.dropWhile (· == letter)).head? ≠ some letter := by
        intro goesOn
        cases head?_dropWhile goesOn
      exact scans_run length offset whole ends (ih inside (drop_run _ remaining))
  | case3 offset b rest sign ih =>
      have takes := takes_semicolon remaining sign
      exact .emit takes rfl (ih takes.le_size (drop_byte remaining))
  | case4 offset b rest blank length ih =>
      have takes := takes_blanks remaining blank
      exact .pass takes (.inr ⟨rfl, rfl⟩) (ih takes.le_size (drop_run _ remaining))
  | case5 offset b rest sign open' =>
      have takes := takes_hash remaining sign
      have total : offset + (b :: rest).length = src.size := by
        rw [← remaining, List.length_drop, Array.length_toList]
        omega
      have atEnd : offset + 1 + rest.length = src.size := by
        rw [← total, List.length_cons]
        omega
      refine .pass takes (.inl rfl) (scans_line (drop_byte remaining) ?_)
      rw [List.takeWhile_eq_self_iff.mpr (List.dropWhile_eq_nil_iff.mp open'), total, atEnd]
      exact Lexer.Stops.scans (.rejectedEnd rfl rfl)
  | case6 offset b rest sign c later closes ih =>
      have takes := takes_hash remaining sign
      have onNewline : src.toList.drop (offset + 1 + (rest.takeWhile lineBytes.contains).length) =
          newline :: later := by
        have behind := drop_run lineBytes.contains remaining
        rwa [Nat.add_comm _ 1, ← Nat.add_assoc, closes, head_eq_newline closes] at behind
      have takes' := takes_newline onNewline
      refine .pass takes (.inl rfl) (scans_line (drop_byte remaining) ?_)
      exact .pass takes' (.inl rfl) (ih takes'.le_size (drop_byte onNewline))
  | case7 offset b rest illegal =>
      obtain ⟨read, _⟩ := getElem?_of_drop remaining
      rw [Array.getElem?_toList] at read
      exact Lexer.Stops.scans (.unmatched rfl (Automaton.refusal?_eq_none rfl rfl _) read
        (unseen_illegal (Array.getElem?_toList.trans read) illegal))

end Simulation

/-- Whether a comment is open behind a byte, given whether one is open in front of it. -/
def afterByte (inside : Bool) (b : UInt8) : Bool := if inside then b ≠ newline else b = hash

def commented (inside : Bool) (bytes : List UInt8) : Bool := bytes.foldl afterByte inside

/-- Where no comment is open, a byte opens one or is a letter, a semicolon, a space or a newline,
and every comment ends. The bytes begin inside of a comment or outside. -/
structure Legal (inside : Bool) (bytes : List UInt8) : Prop where
  plain : ∀ n b, bytes[n]? = some b → commented inside (bytes.take n) = false → b ≠ hash →
    b = letter ∨ b = semicolon ∨ b = space ∨ b = newline
  closed : commented inside bytes = false

variable {inside : Bool} {b : UInt8} {bytes run rest : List UInt8}

theorem legal_cons_iff :
    Legal inside (b :: rest) ↔
      (inside = false → b ≠ hash → b = letter ∨ b = semicolon ∨ b = space ∨ b = newline) ∧
        Legal (afterByte inside b) rest := by
  constructor
  · intro h
    exact ⟨h.plain 0 b rfl, fun n c read => h.plain (n + 1) c read, h.closed⟩
  · rintro ⟨first, later⟩
    refine ⟨?_, later.closed⟩
    intro n c read outside'
    cases n with
    | zero =>
        obtain rfl := Option.some.inj read
        exact first outside'
    | succ n => exact later.plain n c read outside'

/-- Outside of comments, a byte does not matter if it opens none and is not illegal. -/
theorem legal_cons_of_kind (silent : kind b ≠ .hash) (known : kind b ≠ .illegal) :
    Legal false (b :: rest) ↔ Legal false rest := by
  obtain ⟨isLetter, isSemicolon, isBlank, isHash⟩ := kind_eq_iff b
  have goesOn : afterByte false b = false := by
    simpa [afterByte] using fun same => silent (isHash.mpr same)
  have plain : b = letter ∨ b = semicolon ∨ b = space ∨ b = newline := by
    cases found : kind b with
    | letter => exact .inl (isLetter.mp found)
    | semicolon => exact .inr (.inl (isSemicolon.mp found))
    | blank => exact .inr (.inr (isBlank.mp found))
    | hash => exact absurd found silent
    | illegal => exact absurd found known
  rw [legal_cons_iff, goesOn]
  exact and_iff_right fun _ _ => plain

theorem legal_run_iff (plain : ∀ b ∈ run, kind b ≠ .hash ∧ kind b ≠ .illegal) :
    Legal false (run ++ rest) ↔ Legal false rest := by
  induction run with
  | nil => rfl
  | cons b run ih =>
      obtain ⟨silent, known⟩ := plain b List.mem_cons_self
      rw [List.cons_append, legal_cons_of_kind silent known]
      exact ih fun c mem => plain c (.tail b mem)

/-- A hash opens a comment. -/
theorem legal_hash_iff (sign : kind b = .hash) : Legal false (b :: rest) ↔ Legal true rest := by
  obtain rfl := (kind_eq_iff b).2.2.2.mp sign
  have opens : afterByte false hash = true := by decide
  rw [legal_cons_iff, opens]
  exact and_iff_right fun _ other => absurd rfl other

theorem not_legal_of_illegal (illegal : kind b = .illegal) : ¬ Legal false (b :: rest) := by
  intro h
  have isPlain := (legal_cons_iff.mp h).1 rfl
  have none : ∀ b, kind b = .illegal →
      b ≠ hash ∧ b ≠ letter ∧ b ≠ semicolon ∧ b ≠ space ∧ b ≠ newline :=
    forall_byte (by decide +kernel)
  obtain ⟨notHash, notLetter, notSemicolon, notSpace, notNewline⟩ := none b illegal
  simp [notHash, notLetter, notSemicolon, notSpace, notNewline] at isPlain

/-- Inside of a comment, what is left of the line does not matter. -/
theorem legal_line_iff (line : ∀ b ∈ run, b ≠ newline) :
    Legal true (run ++ rest) ↔ Legal true rest := by
  induction run with
  | nil => rfl
  | cons b run ih =>
      have goesOn : afterByte true b = true := by
        simpa [afterByte] using line b List.mem_cons_self
      rw [List.cons_append, legal_cons_iff, goesOn, ih fun c mem => line c (.tail b mem)]
      simp

theorem exists_map_eq_ok_iff {α β : Type} {f : α → β} {r : Except LexFailure α} :
    (∃ y, r.map f = .ok y) ↔ ∃ x, r = .ok x := by
  cases r <;> simp [Except.map]

/-- A scan succeeds for legal bytes. -/
theorem exists_scan_eq_ok_iff (offset : Nat) (bytes : List UInt8) :
    (∃ tokens, scan offset bytes = .ok tokens) ↔ Legal false bytes := by
  fun_induction scan offset bytes with
  | case1 offset => exact ⟨fun _ => ⟨nofun, rfl⟩, fun _ => ⟨[], rfl⟩⟩
  | case2 offset b rest isLetter length ih =>
      have run : ∀ c ∈ b :: rest.takeWhile (· == letter), kind c ≠ .hash ∧ kind c ≠ .illegal := by
        intro c mem
        rw [eq_letter_of_mem isLetter mem]
        decide
      rw [exists_map_eq_ok_iff, ih, ← legal_run_iff run, List.cons_append,
        List.takeWhile_append_dropWhile]
  | case3 offset b rest sign ih =>
      rw [exists_map_eq_ok_iff, ih, legal_cons_of_kind (by rw [sign]; nofun) (by rw [sign]; nofun)]
  | case4 offset b rest blank length ih =>
      have run : ∀ c ∈ b :: rest.takeWhile blanks.contains, kind c ≠ .hash ∧ kind c ≠ .illegal := by
        intro c mem
        have same : kind c = .blank := by
          rcases List.mem_cons.mp mem with rfl | inRun
          · exact blank
          · simpa [contains_eq] using List.mem_takeWhile_imp inRun
        rw [same]
        exact ⟨nofun, nofun⟩
      rw [ih, ← legal_run_iff run, List.cons_append, List.takeWhile_append_dropWhile]
  | case5 offset b rest sign open' =>
      have line : ∀ c ∈ rest, c ≠ newline := by
        simpa [contains_lineBytes] using open'
      have unclosed : ¬ Legal true rest := by
        rw [← List.append_nil rest, legal_line_iff line]
        exact fun h => Bool.noConfusion h.closed
      simpa [legal_hash_iff sign] using unclosed
  | case6 offset b rest sign c later closes ih =>
      have closing : afterByte true newline = false := by decide
      have split : rest = rest.takeWhile lineBytes.contains ++ newline :: later := by
        rw [← head_eq_newline closes, ← closes, List.takeWhile_append_dropWhile]
      rw [ih, legal_hash_iff sign, split, legal_line_iff fun c mem => ne_newline_of_mem mem,
        legal_cons_iff, closing]
      exact (and_iff_right nofun).symm
  | case7 offset b rest illegal => simpa using not_legal_of_illegal illegal

end ItemList

end TableParsing
