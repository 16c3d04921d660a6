import Mathlib.Data.String.Basic
import TableParsing.Diagnostics

/-!
# Where a message is cut

A message is written in parts to a text of bounded size, and the limit shrinks when a part is cut.
Nevertheless what is stored depends on the text as a whole only: it is the longest beginning of it
that stays within the bound and ends at a character boundary.

A bounded text is in one of two states. It holds all that has been written, and the limit is the
bound; or it holds the beginning that fits, and the limit is its size. `Holds` names both, and a
write leads from either to one of them.
-/

namespace TableParsing

/-- The longest beginning of a text that has at most `limit` bytes and ends at a character
boundary. -/
structure LongestPrefix (limit : Nat) (text s : String) : Prop where
  begins : ∃ rest, text = s ++ rest
  fits : s.utf8ByteSize ≤ limit
  longest : ∀ n ≤ limit, String.Pos.Raw.IsValid text ⟨n⟩ → n ≤ s.utf8ByteSize

namespace BoundedText

section Fitting

open String (utf8Len)

variable {room : Nat} {cs ds : List Char}

@[simp] theorem fitting_zero (cs : List Char) : fitting 0 cs = [] := by
  cases cs with
  | nil => rfl
  | cons c cs => exact if_neg (Nat.not_le.mpr c.utf8Size_pos)

theorem fitting_begins (room : Nat) (cs : List Char) : fitting room cs <+: cs := by
  induction cs generalizing room with
  | nil => exact List.nil_prefix
  | cons c cs ih =>
      rw [fitting]
      split
      · exact (List.prefix_cons_inj c).mpr (ih _)
      · exact List.nil_prefix

theorem utf8Len_fitting_le (room : Nat) (cs : List Char) : utf8Len (fitting room cs) ≤ room := by
  induction cs generalizing room with
  | nil => exact Nat.zero_le room
  | cons c cs ih =>
      rw [fitting]
      split
      · have rest := ih (room - c.utf8Size)
        rw [String.utf8Len_cons]
        omega
      · exact Nat.zero_le room

/-- Characters that fit leave the rest of the room to those behind them. -/
theorem fitting_append_of_le (fits : utf8Len cs ≤ room) :
    fitting room (cs ++ ds) = cs ++ fitting (room - utf8Len cs) ds := by
  induction cs generalizing room with
  | nil => rfl
  | cons c cs ih =>
      rw [String.utf8Len_cons] at fits
      have left : room - c.utf8Size - utf8Len cs = room - utf8Len (c :: cs) := by
        rw [String.utf8Len_cons]
        omega
      rw [List.cons_append, fitting, if_pos (by omega), ih (by omega), left, List.cons_append]

/-- Behind characters that do not fit nothing fits. -/
theorem fitting_append_of_lt (exceeds : room < utf8Len cs) :
    fitting room (cs ++ ds) = fitting room cs := by
  induction cs generalizing room with
  | nil => exact absurd exceeds (Nat.not_lt_zero room)
  | cons c cs ih =>
      rw [String.utf8Len_cons] at exceeds
      rw [List.cons_append, fitting, fitting]
      split
      · rw [ih (by omega)]
      · rfl

end Fitting

/-- The beginning of a text that fits into `limit` bytes. -/
def cut (limit : Nat) (text : String) : String := String.ofList (fitting limit text.toList)

variable {limit : Nat} {text written : String} {t : BoundedText}

theorem cut_append_of_le (fits : written.utf8ByteSize ≤ limit) (part : String) :
    cut limit (written ++ part) = written ++ cut (limit - written.utf8ByteSize) part := by
  rw [← String.utf8Len_toList] at fits
  rw [cut, String.toList_append, fitting_append_of_le fits, String.ofList_append,
    String.ofList_toList, String.utf8Len_toList, cut]

theorem cut_append_of_lt (exceeds : limit < written.utf8ByteSize) (part : String) :
    cut limit (written ++ part) = cut limit written := by
  rw [← String.utf8Len_toList] at exceeds
  rw [cut, String.toList_append, fitting_append_of_lt exceeds, cut]

theorem cut_eq_self (fits : text.utf8ByteSize ≤ limit) : cut limit text = text := by
  have whole := cut_append_of_le fits ""
  rw [String.append_empty] at whole
  rw [whole]
  exact String.append_empty

theorem utf8ByteSize_cut_le (limit : Nat) (text : String) :
    (cut limit text).utf8ByteSize ≤ limit := by
  rw [cut, String.utf8ByteSize_ofList]
  exact utf8Len_fitting_le limit text.toList

/-- Cutting gives the longest beginning that fits. -/
theorem longestPrefix_cut (limit : Nat) (text : String) :
    LongestPrefix limit text (cut limit text) := by
  refine ⟨?_, utf8ByteSize_cut_le limit text, ?_⟩
  · obtain ⟨rest, whole⟩ := fitting_begins limit text.toList
    refine ⟨String.ofList rest, ?_⟩
    rw [cut, ← String.ofList_append, whole, String.ofList_toList]
  · intro n le boundary
    obtain ⟨front, back, rfl, here⟩ := String.Pos.Raw.isValid_iff_exists_append.mp boundary
    obtain rfl : n = front.utf8ByteSize := congrArg String.Pos.Raw.byteIdx here
    rw [cut_append_of_le le, String.utf8ByteSize_append]
    exact Nat.le_add_right _ _

/-- What a bounded text is after a text has been written to it: that text if it fits, and otherwise
the beginning that fits, with no room left. -/
inductive Holds (limit : Nat) (written : String) : BoundedText → Prop where
  | whole (fits : written.utf8ByteSize ≤ limit) : Holds limit written ⟨written, limit⟩
  | closed (exceeds : limit < written.utf8ByteSize) :
      Holds limit written ⟨cut limit written, (cut limit written).utf8ByteSize⟩

theorem holds_empty (limit : Nat) : Holds limit "" (empty limit) := .whole (Nat.zero_le limit)

theorem Holds.text_eq (h : Holds limit written t) : t.text = cut limit written := by
  cases h with
  | whole fits => exact (cut_eq_self fits).symm
  | closed => rfl

/-- A closed text stays as it is, also if nothing is written. -/
theorem write_closed (text part : String) :
    write ⟨text, text.utf8ByteSize⟩ part = ⟨text, text.utf8ByteSize⟩ := by
  simp only [write, Nat.sub_self]
  split
  · next nothing =>
      have empty := String.utf8ByteSize_eq_zero_iff.mp (Nat.le_zero.mp nothing)
      rw [empty, String.append_empty]
  · rw [fitting_zero, String.ofList_nil, String.append_empty]

/-- A write appends to what has been written. -/
theorem Holds.write (h : Holds limit written t) (part : String) :
    Holds limit (written ++ part) (t.write part) := by
  cases h with
  | whole fits =>
      by_cases within : part.utf8ByteSize ≤ limit - written.utf8ByteSize
      · simp only [BoundedText.write, if_pos within]
        refine .whole ?_
        rw [String.utf8ByteSize_append]
        omega
      · have text : written ++ String.ofList (fitting (limit - written.utf8ByteSize) part.toList) =
            cut limit (written ++ part) := (cut_append_of_le fits part).symm
        simp only [BoundedText.write, if_neg within, text]
        refine .closed ?_
        rw [String.utf8ByteSize_append]
        omega
  | closed exceeds =>
      rw [write_closed, ← cut_append_of_lt exceeds part]
      refine .closed ?_
      rw [String.utf8ByteSize_append]
      omega

/-- After any number of writes, all of them are what has been written. -/
theorem Holds.writeAll (h : Holds limit written t) (parts : List String) :
    Holds limit (written ++ String.join parts) (t.writeAll parts) := by
  induction parts generalizing written t with
  | nil => simpa [BoundedText.writeAll] using h
  | cons part parts ih =>
      rw [String.join_cons, ← String.append_assoc]
      exact ih (h.write part)

end BoundedText

/-- What a message does when it is rendered: it writes parts, and ends with or without an error. No
write fails, so a message cannot tell what becomes of its parts. -/
inductive Rendering where
  | done
  | fault
  | write (part : String) (rest : Rendering)

namespace Rendering

def parts : Rendering → List String
  | done | fault => []
  | write part rest => part :: rest.parts

def text (m : Rendering) : String := String.join m.parts

/-- Write a message to a bounded text, and tell whether it ends without an error. -/
def render : Rendering → BoundedText → BoundedText × Bool
  | done, t => (t, true)
  | fault, t => (t, false)
  | write part rest, t => rest.render (t.write part)

/-- An error at the end takes nothing back. -/
theorem render_eq (m : Rendering) (t : BoundedText) : (m.render t).1 = t.writeAll m.parts := by
  induction m generalizing t with
  | done | fault => rfl
  | write part rest ih => exact ih (t.write part)

end Rendering

namespace Diagnostics

/-- Record a failure whose message is rendered into the diagnostics. Whether it ends with an
error is not looked at. -/
def reportRendered (d : Diagnostics) (kind : FailureKind) (m : Rendering) : Diagnostics :=
  { d with
    kind := some kind
    message := (m.render (.empty maxMessageSize)).1.text }

theorem stored_eq_cut (parts : List String) :
    stored parts = BoundedText.cut maxMessageSize (String.join parts) := by
  have holds := (BoundedText.holds_empty maxMessageSize).writeAll parts
  rw [String.empty_append] at holds
  exact holds.text_eq

theorem reportRendered_eq (d : Diagnostics) (kind : FailureKind) (m : Rendering) :
    d.reportRendered kind m = d.report kind m.parts := by
  rw [reportRendered, Rendering.render_eq]
  rfl

theorem message_reportRendered (d : Diagnostics) (kind : FailureKind) (m : Rendering) :
    (d.reportRendered kind m).message = BoundedText.cut maxMessageSize m.text := by
  rw [reportRendered_eq]
  exact stored_eq_cut m.parts

/-- Whatever diagnostics say, and with or without an error at its end, a message that is reported is
stored as the longest beginning of its text within the bound that ends at a character boundary. So
only the text counts, not its parts and not the message before; and once the text exceeds the bound,
nothing more is stored of what is written further. -/
theorem report_longest (d : Diagnostics) (kind : FailureKind) (m : Rendering) :
    d.reportRendered kind m = d.report kind m.parts ∧
    LongestPrefix maxMessageSize m.text (d.reportRendered kind m).message ∧
    (∀ (d' : Diagnostics) (kind' : FailureKind) (m' : Rendering), m'.text = m.text →
      (d'.reportRendered kind' m').message = (d.reportRendered kind m).message) ∧
    (maxMessageSize < m.text.utf8ByteSize → ∀ (m' : Rendering) (more : List String),
      m'.parts = m.parts ++ more →
        (d.reportRendered kind m').message = (d.reportRendered kind m).message) := by
  refine ⟨reportRendered_eq d kind m, ?_, ?_, ?_⟩
  · rw [message_reportRendered]
    exact BoundedText.longestPrefix_cut maxMessageSize m.text
  · intro d' kind' m' same
    rw [message_reportRendered, message_reportRendered, same]
  · intro exceeds m' more further
    have text : m'.text = m.text ++ String.join more := by
      rw [Rendering.text, further, String.join_append, Rendering.text]
    rw [message_reportRendered, message_reportRendered, text, BoundedText.cut_append_of_lt exceeds]

/-- A text with room for one more byte. -/
def nearlyFull : String := String.ofList (List.replicate 255 'x')

/-- A character of two bytes behind it, and an error. -/
def overfull : Rendering := .write nearlyFull (.write "é" .fault)

def overfullAndMore : Rendering := .write nearlyFull (.write "é" (.write "y" .done))

/-- The character that does not fit is left out, and so is the byte behind it that would. -/
theorem report_longest_overfull :
    maxMessageSize < overfull.text.utf8ByteSize ∧
    LongestPrefix maxMessageSize overfull.text nearlyFull ∧
    (report {} .lexical overfull.parts).message = nearlyFull ∧
    (report {} .lexical overfullAndMore.parts).message = nearlyFull := by
  have size : nearlyFull.utf8ByteSize = 255 := by decide +kernel
  have exceeds : maxMessageSize < overfull.text.utf8ByteSize := by decide +kernel
  have nothing : BoundedText.cut 1 "é" = "" := by decide +kernel
  obtain ⟨reported, longest, -, closed⟩ := report_longest {} .lexical overfull
  have stored : (reportRendered {} .lexical overfull).message = nearlyFull := by
    have text : overfull.text = nearlyFull ++ "é" := by decide +kernel
    have room : maxMessageSize - nearlyFull.utf8ByteSize = 1 := by rw [size, maxMessageSize]
    have fits : nearlyFull.utf8ByteSize ≤ maxMessageSize := by rw [size]; decide
    rw [message_reportRendered, text, BoundedText.cut_append_of_le fits, room, nothing,
      String.append_empty]
  have further := closed exceeds overfullAndMore ["y"] rfl
  rw [stored] at longest further
  rw [← reported, ← reportRendered_eq]
  exact ⟨exceeds, longest, stored, further⟩

end Diagnostics

end TableParsing
