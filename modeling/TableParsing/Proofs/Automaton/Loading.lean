import TableParsing.Proofs.Automaton.Encoding

/-!
# Loading automata from images

Automata that are stored in an image are loaded from it again, in order, if the image goes at least
to the end of the last of them. If it ends before that, nothing is loaded: it may end within an
automaton, right behind one, or within the zeros between two of them.

The induction is on the automata. What carries it is that the bytes from the current offset on are a
beginning of what is stored for the automata that are left, and that the offset is a multiple of
four.
-/

namespace TableParsing

namespace Encoding.SelfDelimiting

variable {α : Type} {encoding : Encoding α}

theorem length_encode_pos (h : encoding.SelfDelimiting) (a : α) :
    0 < (encoding.encode a).length := by
  apply List.length_pos_iff.mpr
  intro empty
  have read := h.reads a []
  rw [List.append_nil, empty, h.nothing] at read
  cases read

end Encoding.SelfDelimiting

namespace Image

variable {A : Type} {m n : Nat}

theorem le_roundUp (n : Nat) : n ≤ roundUp n := by
  unfold roundUp
  omega

theorem dvd_roundUp (n : Nat) : 4 ∣ roundUp n := Nat.dvd_mul_left 4 _

/-- Rounding up does not depend on where counting begins, if that is a multiple of four. -/
theorem roundUp_add (h : 4 ∣ m) : roundUp (m + n) = m + roundUp n := by
  unfold roundUp
  omega

/-- The number of bytes up to the end of the last automaton, without the zeros behind it. -/
def extent (encoding : Encoding A) : List A → Nat
  | [] => 0
  | [a] => (encoding.encode a).length
  | a :: b :: as => roundUp (encoding.encode a).length + extent encoding (b :: as)

/-- An image of automata at an address, of which only some bytes are left. -/
def cut (encoding : Encoding A) (address : Nat) (as : List A) (n : Nat) : Image A :=
  { address, bytes := (encodeAll encoding as).take n, encoding }

variable {encoding : Encoding A} {a : A} {as : List A}

theorem length_padded (encoding : Encoding A) (a : A) :
    (padded encoding a).length = roundUp (encoding.encode a).length := by
  rw [padded, List.length_append, List.length_replicate]
  exact Nat.add_sub_cancel' (le_roundUp _)

theorem encodeAll_cons :
    encodeAll encoding (a :: as) = padded encoding a ++ encodeAll encoding as := by
  rw [encodeAll, List.flatMap_cons, encodeAll]

/-- What is left if the end is within the first automaton. -/
theorem take_encodeAll_of_lt (short : n < (encoding.encode a).length) :
    (encodeAll encoding (a :: as)).take n = (encoding.encode a).take n := by
  rw [encodeAll_cons, padded, List.append_assoc,
    List.take_append_of_le_length (Nat.le_of_lt short)]

/-- What is left begins with the first automaton if the end is not within it. -/
theorem exists_take_encodeAll (enough : (encoding.encode a).length ≤ n)
    (as : List A) :
    ∃ rest, (encodeAll encoding (a :: as)).take n = encoding.encode a ++ rest := by
  rw [encodeAll_cons, padded, List.append_assoc, List.take_append, List.take_of_length_le enough]
  exact ⟨_, rfl⟩

/-- What is left of the others. -/
theorem drop_take_encodeAll :
    ((encodeAll encoding (a :: as)).take n).drop (roundUp (encoding.encode a).length) =
      (encodeAll encoding as).take (n - roundUp (encoding.encode a).length) := by
  rw [List.drop_take, encodeAll_cons, ← length_padded, List.drop_left]

theorem length_le_extent_cons (a : A) (as : List A) :
    (encoding.encode a).length ≤ extent encoding (a :: as) := by
  cases as with
  | nil => exact Nat.le_refl _
  | cons b as => exact Nat.le_trans (le_roundUp _) (Nat.le_add_right _ _)

/-- If one automaton is there, all are if the others are in what is behind its zeros. -/
theorem extent_cons_le_iff (h : encoding.SelfDelimiting) (enough : (encoding.encode a).length ≤ n) :
    extent encoding (a :: as) ≤ n ↔
      extent encoding as ≤ n - roundUp (encoding.encode a).length := by
  cases as with
  | nil => exact iff_of_true enough (Nat.zero_le _)
  | cons b as =>
      have pos := Nat.lt_of_lt_of_le (h.length_encode_pos b) (length_le_extent_cons b as)
      rw [extent]
      omega

section Steps

variable {image : Image A} {count offset length : Nat}

/-- Where no automaton can be read, nothing is loaded. -/
theorem loadFrom_of_unread (start : 4 ∣ image.address + offset)
    (unread : image.encoding.decode? (image.bytes.drop offset) = none) :
    image.loadFrom (count + 1) offset = .error .malformed := by
  rw [loadFrom, if_neg (not_not_intro (Nat.mod_eq_zero_of_dvd start)), unread]

/-- An automaton that is read comes in front of those that are loaded from the next multiple of
four. -/
theorem loadFrom_of_read (start : 4 ∣ image.address + offset)
    (read : image.encoding.decode? (image.bytes.drop offset) = some (a, length)) :
    image.loadFrom (count + 1) offset =
      (image.loadFrom count (roundUp (offset + length))).map (a :: ·) := by
  rw [loadFrom, if_neg (not_not_intro (Nat.mod_eq_zero_of_dvd start)), read]
  dsimp only
  cases image.loadFrom count (roundUp (offset + length)) with
  | ok | error => rfl

/-- From an offset behind which automata are stored, they are loaded if the image does not end
before the last of them does. -/
theorem loadFrom_of_drop (h : image.encoding.SelfDelimiting) (aligned : 4 ∣ image.address)
    (place : 4 ∣ offset) (stored : image.bytes.drop offset = (encodeAll image.encoding as).take n) :
    image.loadFrom as.length offset =
      if extent image.encoding as ≤ n then .ok as else .error .malformed := by
  induction as generalizing offset n with
  | nil => exact (if_pos (Nat.zero_le n)).symm
  | cons a as ih =>
      have start : 4 ∣ image.address + offset := Nat.dvd_add aligned place
      rw [List.length_cons]
      rcases Nat.lt_or_ge n (image.encoding.encode a).length with short | enough
      · -- The image ends within this automaton.
        rw [take_encodeAll_of_lt short] at stored
        have unread := h.refuses a n short
        rw [← stored] at unread
        have missing := Nat.lt_of_lt_of_le short (length_le_extent_cons a as)
        rw [loadFrom_of_unread start unread, if_neg (Nat.not_le_of_gt missing)]
      · -- It may still end within the zeros. Then nothing is left for the others.
        obtain ⟨rest, whole⟩ := exists_take_encodeAll enough as
        have read := h.reads a rest
        rw [← whole, ← stored] at read
        have next := congrArg (List.drop (roundUp (image.encoding.encode a).length)) stored
        rw [List.drop_drop, ← roundUp_add place, drop_take_encodeAll] at next
        rw [loadFrom_of_read start read, ih (dvd_roundUp _) next]
        by_cases all : extent image.encoding (a :: as) ≤ n
        · rw [if_pos all, if_pos ((extent_cons_le_iff h enough).mp all)]
          rfl
        · rw [if_neg all, if_neg (mt (extent_cons_le_iff h enough).mpr all)]
          rfl

end Steps

/-- What is loaded from a beginning of an image. -/
theorem load_cut (h : encoding.SelfDelimiting) {address : Nat} (aligned : 4 ∣ address)
    (as : List A) (n : Nat) :
    (cut encoding address as n).load as.length =
      if extent encoding as ≤ n then .ok as else .error .malformed := by
  show (cut encoding address as n).loadFrom as.length 0 = _
  exact loadFrom_of_drop h aligned (Nat.dvd_zero 4) rfl

end Image

end TableParsing
