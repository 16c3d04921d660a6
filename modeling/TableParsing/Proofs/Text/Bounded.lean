import Mathlib.Data.Nat.Digits.Defs
import TableParsing.Proofs.Text.Truncation
import TableParsing.Source.Span

/-!
# Messages that are stored in full

A message that fits the bound is stored as it is. Numbers below a power of ten have at most as many
digits, so messages that mention a span of machine words are short.
-/

namespace TableParsing

/-- What holds of 256 bytes holds of all. -/
theorem forall_byte {P : UInt8 → Prop} (h : ∀ n : Fin 256, P (UInt8.ofNat n)) (b : UInt8) :
    P b := by
  have at_b := h ⟨b.toNat, b.toNat_lt⟩
  rwa [UInt8.ofNat_toNat] at at_b

/-- A single write that fits is stored in full. -/
theorem Diagnostics.stored_singleton {text : String}
    (fits : text.utf8ByteSize ≤ maxMessageSize) : stored [text] = text := by
  rw [stored_eq_cut, String.join_cons, String.join_nil, String.append_empty,
    BoundedText.cut_eq_self fits]

/-- A text of ASCII characters has one byte for each of them. -/
theorem utf8ByteSize_ofList {cs : List Char} (ascii : ∀ c ∈ cs, c.utf8Size = 1) :
    (String.ofList cs).utf8ByteSize = cs.length := by
  induction cs with
  | nil => rfl
  | cons c cs ih =>
      have rest := ih fun d hd => ascii d (List.mem_cons_of_mem c hd)
      have first := ascii c List.mem_cons_self
      rw [String.ofList_cons, String.utf8ByteSize_append, String.utf8ByteSize_singleton, first,
        rest, List.length_cons, Nat.add_comm]

theorem utf8ByteSize_toString_le {n k : Nat} (pos : 0 < k) (h : n < 10 ^ k) :
    (toString n).utf8ByteSize ≤ k := by
  have digits : ∀ c ∈ Nat.toDigits 10 n, c.utf8Size = 1 := by
    intro c hc
    have digit := Nat.isDigit_of_mem_toDigits (by decide) (Nat.le_refl 10) hc
    rw [Char.isDigit, Bool.and_eq_true, decide_eq_true_eq, decide_eq_true_eq] at digit
    exact Char.utf8Size_eq_one_iff.mpr (UInt32.le_trans digit.2 (by decide))
  rw [Nat.toString_eq_ofList_toDigits, utf8ByteSize_ofList digits]
  exact Nat.toDigits_length 10 n k pos h

/-- A number below the size of a machine word has at most 20 digits. -/
theorem utf8ByteSize_word_le {n : Nat} (h : n < 2 ^ 64) : (toString n).utf8ByteSize ≤ 20 :=
  utf8ByteSize_toString_le (by decide) (Nat.lt_of_lt_of_le h (by decide))

/-- The offsets of a span are machine words. -/
def Span.InWords (s : Span) : Prop := s.start < 2 ^ 64 ∧ s.stop < 2 ^ 64

/-- A span of machine words is written with at most 42 bytes. -/
theorem Span.InWords.utf8ByteSize_le {s : Span} (h : s.InWords) :
    (toString s).utf8ByteSize ≤ 42 := by
  have first := utf8ByteSize_word_le h.1
  have second := utf8ByteSize_word_le h.2
  show (toString s.start ++ ".." ++ toString s.stop).utf8ByteSize ≤ 42
  rw [String.utf8ByteSize_append, String.utf8ByteSize_append]
  show _ + 2 + _ ≤ 42
  omega

end TableParsing
