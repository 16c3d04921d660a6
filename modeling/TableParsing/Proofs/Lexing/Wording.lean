import TableParsing.Lexing.Run
import TableParsing.Proofs.Text.Bounded

/-!
# The wording of lexing failures

Every failure names the offset at which lexing stopped. Apart from the reason that tables give for
a rejection, a message consists of short parts, so it is stored in full unless that reason is long.
-/

namespace TableParsing

/-- An offset stands in a text behind the words for it, and no further digit follows. -/
def NamesOffset (text : String) (offset : Nat) : Prop :=
  ∃ front back, text = front ++ "at offset " ++ toString offset ++ " (" ++ back ∨
    text = front ++ "at offset " ++ toString offset ++ ": " ++ back

namespace LexFailure

variable {src : Source} {n : Nat}

theorem message_unmatched {b : UInt8} : (unmatched b n).message src =
    "no terminal matches byte " ++ Quoted.byte b ++ " " ++ place src n := rfl

theorem message_rejected {reason : String} :
    (rejected reason n).message src = reason ++ " " ++ place src n := rfl

theorem message_refused {refusal : SearchRefusal} : (refused refusal n).message src =
    "cannot start match at offset " ++ toString n ++ ": " ++ refusalMessage n refusal := rfl

theorem place_eq : place src n =
    "at offset " ++ toString n ++ " (" ++ toString (Position.locate src n) ++ ")" := rfl

theorem refusalMessage_behind {b : UInt8} : refusalMessage n (.behind b) =
    "quit search after observing byte " ++ Quoted.bareByte b ++ " at offset " ++
      toString (n - 1) := rfl

theorem namesOffset (src : Source) (f : LexFailure) : NamesOffset (f.message src) f.offset := by
  cases f with
  | unmatched b n =>
      refine ⟨"no terminal matches byte " ++ Quoted.byte b ++ " ",
        toString (Position.locate src n) ++ ")", .inl ?_⟩
      simp only [message_unmatched, place_eq, offset, String.append_assoc]
  | rejected reason n =>
      refine ⟨reason ++ " ", toString (Position.locate src n) ++ ")", .inl ?_⟩
      simp only [message_rejected, place_eq, offset, String.append_assoc]
  | refused refusal n =>
      refine ⟨"cannot start match ", refusalMessage n refusal, .inr ?_⟩
      rw [message_refused]
      rfl

end LexFailure

namespace Position

variable {src : Source}

theorem line_locate_le (src : Source) (offset : Nat) : (locate src offset).line ≤ src.size := by
  refine Nat.le_trans List.count_le_length ?_
  simp only [Array.length_toList, Array.size_extract]
  omega

theorem column_locate_le (src : Source) (offset : Nat) : (locate src offset).column ≤ src.size := by
  have clamped := Nat.min_le_right offset src.size
  simp only [locate]
  split <;> omega

theorem utf8ByteSize_locate_le (words : src.size < 2 ^ 64) (offset : Nat) :
    (toString (locate src offset)).utf8ByteSize ≤ 41 := by
  have line := utf8ByteSize_word_le (Nat.lt_of_le_of_lt (line_locate_le src offset) words)
  have column := utf8ByteSize_word_le (Nat.lt_of_le_of_lt (column_locate_le src offset) words)
  show (toString _ ++ ":" ++ toString _).utf8ByteSize ≤ 41
  rw [String.utf8ByteSize_append, String.utf8ByteSize_append]
  show _ + 1 + _ ≤ 41
  omega

end Position

namespace LexFailure

variable {src : Source} {n : Nat}

/-- A single byte is shown in at most four. -/
theorem utf8ByteSize_byte_le (b : UInt8) : (Quoted.byte b).utf8ByteSize ≤ 4 := by
  revert b
  exact forall_byte (by decide +kernel)

theorem utf8ByteSize_bareByte_le (b : UInt8) : (Quoted.bareByte b).utf8ByteSize ≤ 4 := by
  revert b
  exact forall_byte (by decide +kernel)

theorem utf8ByteSize_place_le (words : src.size < 2 ^ 64) (inside : n ≤ src.size) :
    (place src n).utf8ByteSize ≤ 74 := by
  have number := utf8ByteSize_word_le (Nat.lt_of_le_of_lt inside words)
  have position := Position.utf8ByteSize_locate_le words n
  simp only [place_eq, String.utf8ByteSize_append]
  show 10 + _ + 2 + _ + 1 ≤ 74
  omega

theorem utf8ByteSize_refusalMessage_le (word : n < 2 ^ 64) (refusal : SearchRefusal) :
    (refusalMessage n refusal).utf8ByteSize ≤ 70 := by
  cases refusal with
  | unanchored => exact (by decide : 46 ≤ 70)
  | behind b =>
      have shown := utf8ByteSize_bareByte_le b
      have number := utf8ByteSize_word_le (Nat.lt_of_le_of_lt (Nat.sub_le n 1) word)
      simp only [refusalMessage_behind, String.utf8ByteSize_append]
      show 33 + _ + 11 + _ ≤ 70
      omega

/-- A failure in a source of machine size is stored in full, unless tables give a long reason. -/
theorem stored_message {f : LexFailure} (words : src.size < 2 ^ 64) (inside : f.offset ≤ src.size)
    (short : ∀ reason n, f = .rejected reason n → reason.utf8ByteSize ≤ 181) :
    Diagnostics.stored [f.message src] = f.message src := by
  refine Diagnostics.stored_singleton ?_
  cases f with
  | unmatched b n =>
      have shown := utf8ByteSize_byte_le b
      have placed : (place src n).utf8ByteSize ≤ 74 := utf8ByteSize_place_le words inside
      simp only [message_unmatched, String.utf8ByteSize_append]
      show 25 + _ + 1 + _ ≤ 256
      omega
  | rejected reason n =>
      have bound := short reason n rfl
      have placed : (place src n).utf8ByteSize ≤ 74 := utf8ByteSize_place_le words inside
      simp only [message_rejected, String.utf8ByteSize_append]
      show _ + 1 + _ ≤ 256
      omega
  | refused refusal n =>
      have word : n < 2 ^ 64 := Nat.lt_of_le_of_lt inside words
      have number := utf8ByteSize_word_le word
      have explained := utf8ByteSize_refusalMessage_le word refusal
      simp only [message_refused, String.utf8ByteSize_append]
      show 29 + _ + 2 + _ ≤ 256
      omega

end LexFailure

end TableParsing
