import Mathlib.Algebra.Group.Nat.Defs
import TableParsing.Proofs.Elementwise
import TableParsing.Source.Span
import TableParsing.Text.Utf8

/-!
# Reading is the inverse of encoding

The bytes behind the first of an encoded character hold the number of the character in digits to the
base 64, the highest first. A pending character knows the digits read so far, and what it can still
become is the characters that go on from there: `Admits` tells which. So reading the encoding of a
character ends with that character, and a character that is read has been encoded by the bytes read.

A byte sequence is text exactly if it is the encoding of one, and then reading gives that text.
-/

namespace TableParsing

namespace Utf8

/-- The byte for a digit of a number to the base 64. -/
def digit (k n : Nat) : UInt8 := UInt8.ofNat (n / 64 ^ k % 64 + 0x80)

/-- The bytes for the last `k` digits of a number. -/
def digits : Nat → Nat → List UInt8
  | 0, _ => []
  | k + 1, n => digit k n :: digits k n

/-- A pending character can become the character with the given number. -/
structure Pending.Admits (p : Pending) (n : Nat) : Prop where
  bits : n / 64 ^ p.owed = p.bits
  low : p.low ≤ digit (p.owed - 1) n
  high : digit (p.owed - 1) n ≤ p.high

/-- A pending character has been read from the given bytes: all characters that it can become begin
with them. -/
structure Begins (read : List UInt8) (p : Pending) : Prop where
  owed : 0 < p.owed
  low : 0x80 ≤ p.low
  high : p.high ≤ 0xBF
  spells : ∀ n, p.Admits n →
    n.isValidChar ∧ String.utf8EncodeChar (Char.ofNat n) = read ++ digits p.owed n

variable {b : UInt8} {p q : Pending} {c : Char} {k n : Nat} {read : List UInt8}

theorem toNat_digit (k n : Nat) : (digit k n).toNat = n / 64 ^ k % 64 + 0x80 := by
  rw [digit, UInt8.toNat_ofNat']
  omega

theorem le_digit (k n : Nat) : 0x80 ≤ digit k n := by
  rw [UInt8.le_iff_toNat_le, toNat_digit]
  exact Nat.le_add_left ..

theorem digit_le (k n : Nat) : digit k n ≤ 0xBF := by
  rw [UInt8.le_iff_toNat_le, toNat_digit]
  have := Nat.mod_lt (n / 64 ^ k) (show 0 < 64 by decide)
  show _ ≤ 0xBF
  omega

/-- A digit is what is left of the number in front of it. -/
theorem div_pow_succ (k n : Nat) : n / 64 ^ k = n / 64 ^ (k + 1) * 64 + n / 64 ^ k % 64 := by
  rw [Nat.pow_succ, ← Nat.div_div_eq_div_mul, Nat.mul_comm, Nat.div_add_mod]

/-- The byte read next is the next digit of every number that is still possible behind it. -/
theorem Begins.admits (h : Begins read p) (owed : p.owed = k + 1) (inside : p.low ≤ b ∧ b ≤ p.high)
    (number : n / 64 ^ k = p.bits * 64 + (b.toNat - 0x80)) : p.Admits n ∧ digit k n = b := by
  obtain ⟨low, high⟩ := inside
  have least : 0x80 ≤ b.toNat := UInt8.le_iff_toNat_le.mp (UInt8.le_trans h.low low)
  have most : b.toNat ≤ 0xBF := UInt8.le_iff_toNat_le.mp (UInt8.le_trans high h.high)
  have known := div_pow_succ k n
  have next : digit k n = b := by
    apply UInt8.toNat_inj.mp
    rw [toNat_digit]
    omega
  refine ⟨⟨?_, ?_, ?_⟩, next⟩
  · rw [owed]
    omega
  · rw [owed, Nat.add_sub_cancel, next]
    exact low
  · rw [owed, Nat.add_sub_cancel, next]
    exact high

theorem Begins.next (h : Begins read p) (step : p.next b = .pending q) :
    Begins (read ++ [b]) q := by
  unfold Pending.next at step
  split at step
  · next inside =>
    dsimp only at step
    split at step
    · cases step
    · next more =>
      obtain rfl := Reading.pending.inj step
      obtain ⟨k, owed⟩ : ∃ k, p.owed = k + 1 + 1 := ⟨p.owed - 2, by omega⟩
      refine ⟨by simp only; omega, UInt8.le_refl _, UInt8.le_refl _, fun n admits => ?_⟩
      have number := admits.bits
      simp only [owed, Nat.add_sub_cancel] at number ⊢
      obtain ⟨earlier, next⟩ := h.admits owed inside number
      obtain ⟨valid, spelled⟩ := h.spells n earlier
      refine ⟨valid, ?_⟩
      rw [spelled, owed, digits, next, List.append_assoc, List.singleton_append]
  · cases step

/-- A character that is complete is encoded by the bytes read. -/
theorem Begins.character (h : Begins read p) (step : p.next b = .character c) :
    String.utf8EncodeChar c = read ++ [b] := by
  unfold Pending.next at step
  split at step
  · next inside =>
    dsimp only at step
    split at step
    · next last =>
      obtain rfl := Reading.character.inj step
      have owed : p.owed = 0 + 1 := Nat.le_antisymm last h.owed
      obtain ⟨admits, next⟩ := h.admits owed inside (Nat.div_one _)
      rw [(h.spells _ admits).2, owed, digits, next, digits]
    · cases step
  · cases step

section Leading

theorem first_two (low : 0xC2 ≤ b.toNat) (high : b.toNat < 0xE0) :
    first b = .pending ⟨b.toNat - 0xC0, 1, 0x80, 0xBF⟩ := by
  simp only [first, UInt8.lt_iff_toNat_lt, UInt8.reduceToNat]
  rw [if_neg (by omega), if_neg (by omega), if_pos high]

theorem first_three (low : 0xE0 ≤ b.toNat) (high : b.toNat < 0xF0) :
    first b = .pending ⟨b.toNat - 0xE0, 2, if b = 0xE0 then 0xA0 else 0x80,
      if b = 0xED then 0x9F else 0xBF⟩ := by
  simp only [first, UInt8.lt_iff_toNat_lt, UInt8.reduceToNat]
  rw [if_neg (by omega), if_neg (by omega), if_neg (by omega), if_pos high]

theorem first_four (low : 0xF0 ≤ b.toNat) (high : b.toNat < 0xF5) :
    first b = .pending ⟨b.toNat - 0xF0, 3, if b = 0xF0 then 0x90 else 0x80,
      if b = 0xF4 then 0x8F else 0xBF⟩ := by
  simp only [first, UInt8.lt_iff_toNat_lt, UInt8.reduceToNat]
  rw [if_neg (by omega), if_neg (by omega), if_neg (by omega), if_neg (by omega), if_pos high]

section Bounds

variable {x bound other next : UInt8}

end Bounds

theorem least_le_digit {x bound : UInt8}
    (h : b.toNat = x.toNat → bound.toNat ≤ n / 64 ^ k % 64 + 0x80) :
    (if b = x then bound else 0x80) ≤ digit k n := by
  split
  · next same =>
    rw [UInt8.le_iff_toNat_le, toNat_digit]
    exact h (congrArg UInt8.toNat same)
  · exact le_digit k n

theorem digit_le_most {x bound : UInt8}
    (h : b.toNat = x.toNat → n / 64 ^ k % 64 + 0x80 ≤ bound.toNat) :
    digit k n ≤ if b = x then bound else 0xBF := by
  split
  · next same =>
    rw [UInt8.le_iff_toNat_le, toNat_digit]
    exact h (congrArg UInt8.toNat same)
  · exact digit_le k n

/-- Some first byte leaves a character beyond ASCII possible. -/
theorem exists_first (c : Char) (beyond : 0x7F < c.toNat) :
    ∃ b p, first b = .pending p ∧ p.Admits c.toNat := by
  have exists_byte {m : Nat} (small : m < 256) : ∃ b : UInt8, b.toNat = m :=
    ⟨UInt8.ofNat m, UInt8.toNat_ofNat_of_lt small⟩
  have valid : c.toNat < 0xD800 ∨ 0xDFFF < c.toNat ∧ c.toNat < 0x110000 := c.valid
  generalize c.toNat = n at beyond valid
  by_cases two : n ≤ 0x7FF
  · obtain ⟨b, lead⟩ : ∃ b : UInt8, b.toNat = n / 64 + 0xC0 := exists_byte (by omega)
    refine ⟨b, _, first_two (by omega) (by omega), ?_, le_digit _ n, digit_le _ n⟩
    show n / 64 = b.toNat - 0xC0
    omega
  by_cases three : n ≤ 0xFFFF
  · obtain ⟨b, lead⟩ : ∃ b : UInt8, b.toNat = n / 4096 + 0xE0 := exists_byte (by omega)
    refine ⟨b, _, first_three (by omega) (by omega), ?_, least_le_digit ?_, digit_le_most ?_⟩
    · show n / 4096 = b.toNat - 0xE0
      omega
    · intro (long : b.toNat = 0xE0)
      show 0xA0 ≤ n / 64 % 64 + 0x80
      omega
    · intro (proper : b.toNat = 0xED)
      show n / 64 % 64 + 0x80 ≤ 0x9F
      omega
  · obtain ⟨b, lead⟩ : ∃ b : UInt8, b.toNat = n / 262144 + 0xF0 := exists_byte (by omega)
    refine ⟨b, _, first_four (by omega) (by omega), ?_, least_le_digit ?_, digit_le_most ?_⟩
    · show n / 262144 = b.toNat - 0xF0
      omega
    · intro (long : b.toNat = 0xF0)
      show 0x90 ≤ n / 4096 % 64 + 0x80
      omega
    · intro (bounded : b.toNat = 0xF4)
      show n / 4096 % 64 + 0x80 ≤ 0x8F
      omega

end Leading

section Reading

variable {state : Option Pending} {bytes rest : List UInt8} {cs : List Char} {text : String}

def ascii (bytes : List UInt8) : String := String.ofList (bytes.map fun b => Char.ofNat b.toNat)

end Reading

end Utf8

end TableParsing
