import Mathlib.Tactic.ByContra
import TableParsing.Automaton.Image

/-!
# How automata are stored

An encoding delimits itself if what stands behind the bytes of a value does not matter to its
reader, and if bytes that were cut short are refused. The encoding of automata does.

The reader of a part of an automaton returns the bytes that it leaves. So the first half is one law
for each kind of part, stated in front of any rest. The second half comes from it: what a reader
reads, it also reads in front of more. If it took cut bytes for something, it would take the whole
for the same and leave what was cut off.
-/

namespace TableParsing

/-- Values can be read from their bytes in front of anything, and from no beginning of them. -/
structure Encoding.SelfDelimiting {α : Type} (encoding : Encoding α) : Prop where
  /-- What is stored is read with its length, whatever follows it. -/
  reads : ∀ a rest, encoding.decode? (encoding.encode a ++ rest) =
    some (a, (encoding.encode a).length)
  /-- What is cut short is refused. -/
  refuses : ∀ a n, n < (encoding.encode a).length →
    encoding.decode? ((encoding.encode a).take n) = none
  /-- No bytes are refused. -/
  nothing : encoding.decode? [] = none

/-- What one reader reads, the other reads in front of more. -/
def ReadsOn {α : Type} (read read' : List UInt8 → Option (α × List UInt8)) : Prop :=
  ∀ ⦃bytes x rest⦄, read bytes = some (x, rest) →
    ∀ more, read' (bytes ++ more) = some (x, rest ++ more)

namespace ReadsOn

variable {α β : Type} {read read' : List UInt8 → Option (α × List UInt8)}

/-- A reader that leaves all bytes. -/
theorem pure (x : α) :
    ReadsOn (fun bytes => some (x, bytes)) (fun bytes => some (x, bytes)) := by
  intro bytes y rest found more
  obtain ⟨rfl, rfl⟩ := Prod.mk.inj (Option.some.inj found)
  rfl

theorem map (h : ReadsOn read read') (f : α → β) :
    ReadsOn (fun bytes => (read bytes).map fun (x, rest) => (f x, rest))
      (fun bytes => (read' bytes).map fun (x, rest) => (f x, rest)) := by
  intro bytes y rest found more
  obtain ⟨⟨x, left⟩, first, made⟩ := Option.map_eq_some_iff.mp found
  obtain ⟨rfl, rfl⟩ := Prod.mk.inj made
  dsimp only
  rw [h first more, Option.map_some]

theorem bind (h : ReadsOn read read') {next next' : α → List UInt8 → Option (β × List UInt8)}
    (later : ∀ x, ReadsOn (next x) (next' x)) :
    ReadsOn (fun bytes => (read bytes).bind fun p => next p.1 p.2)
      (fun bytes => (read' bytes).bind fun p => next' p.1 p.2) := by
  intro bytes y rest found more
  obtain ⟨⟨x, left⟩, first, second⟩ := Option.bind_eq_some_iff.mp found
  dsimp only
  rw [h first more, Option.bind_some]
  exact later x second more

/-- Bytes that are read in front of anything are refused when they are cut. -/
theorem take_eq_none {bytes : List UInt8} {x : α} {n : Nat} (h : ReadsOn read read)
    (whole : ∀ rest, read (bytes ++ rest) = some (x, rest)) (cut : n < bytes.length) :
    read (bytes.take n) = none := by
  cases found : read (bytes.take n) with
  | none => rfl
  | some result =>
      have longer := h found (bytes.drop n)
      rw [List.take_append_drop, ← List.append_nil bytes, whole] at longer
      obtain ⟨-, ended⟩ := Prod.mk.inj (Option.some.inj longer)
      obtain ⟨-, ended⟩ := List.append_eq_nil_iff.mp ended.symm
      rw [List.append_nil, List.drop_eq_nil_iff] at ended
      omega

end ReadsOn

namespace ByteSet

theorem decodeRanges_zero (rest : List UInt8) : decodeRanges (0 :: rest) = some ([], rest) := by
  rw [decodeRanges.eq_def]
  rfl

theorem decodeRanges_encodeRanges (ranges : List (UInt8 × UInt8)) (rest : List UInt8) :
    decodeRanges (encodeRanges ranges ++ rest) = some (ranges, rest) := by
  induction ranges with
  | nil => exact decodeRanges_zero rest
  | cons r ranges ih =>
      simp only [encodeRanges, List.cons_append, decodeRanges, ih]
      rfl

theorem decode?_encode (s : ByteSet) (rest : List UInt8) :
    decode? (s.encode ++ rest) = some (s, rest) := by
  rw [encode, decode?, decodeRanges_encodeRanges]
  rfl

theorem readsOn_decodeRanges : ReadsOn decodeRanges decodeRanges := by
  intro bytes ranges rest found more
  fun_induction decodeRanges bytes generalizing ranges rest with
  | case1 left =>
      rw [List.cons_append, decodeRanges_zero]
      exact ReadsOn.pure [] found more
  | case2 low high left _ ih =>
      obtain ⟨⟨others, later⟩, read, made⟩ := Option.map_eq_some_iff.mp found
      obtain ⟨rfl, rfl⟩ := Prod.mk.inj made
      simp only [List.cons_append, decodeRanges, ih read]
      rfl
  | case3 | case4 | case5 => cases found

theorem readsOn_decode? : ReadsOn decode? decode? := readsOn_decodeRanges.map ByteSet.mk

end ByteSet

namespace Numeral

theorem decode?_zero (rest : List UInt8) : decode? (0 :: rest) = some (0, rest) := by
  rw [decode?.eq_def]
  rfl

theorem decode?_encode (n : Nat) (rest : List UInt8) :
    decode? (encode n ++ rest) = some (n, rest) := by
  fun_induction encode n with
  | case1 => exact decode?_zero rest
  | case2 n nonzero ih =>
      have digits : (n % 256).toUInt8.toNat + 256 * (n / 256) = n := by
        rw [Nat.toUInt8, UInt8.toNat_ofNat', Nat.mod_mod, Nat.mod_add_div]
      simp only [List.cons_append, decode?, ih, Option.map_some, digits]
      rfl

theorem decodeOption?_encodeOption (n : Option Nat) (rest : List UInt8) :
    decodeOption? (encodeOption n ++ rest) = some (n, rest) := by
  cases n with
  | none => rfl
  | some n =>
      simp only [encodeOption, List.cons_append, decodeOption?, decode?_encode]
      rfl

theorem readsOn_decode? : ReadsOn decode? decode? := by
  intro bytes n rest found more
  fun_induction decode? bytes generalizing n rest with
  | case1 left =>
      rw [List.cons_append, decode?_zero]
      exact ReadsOn.pure 0 found more
  | case2 digit left _ ih =>
      obtain ⟨⟨higher, later⟩, read, made⟩ := Option.map_eq_some_iff.mp found
      obtain ⟨rfl, rfl⟩ := Prod.mk.inj made
      simp only [List.cons_append, decode?, ih read]
      rfl
  | case3 | case4 | case5 => cases found

theorem readsOn_decodeOption? : ReadsOn decodeOption? decodeOption? := by
  intro bytes n rest found more
  cases bytes with
  | nil => cases found
  | cons tag bytes =>
      rw [List.cons_append]
      rw [decodeOption?] at found ⊢
      split at found
      next zero =>
        rw [if_pos zero]
        exact ReadsOn.pure none found more
      next nonzero =>
        rw [if_neg nonzero]
        split at found
        next one =>
          rw [if_pos one]
          exact readsOn_decode?.map some found more
        next => cases found

end Numeral

namespace Assertion

theorem ofCode?_code (condition : Assertion) : ofCode? condition.code = some condition := by
  cases condition with
  | textStart | textEnd | lineStart | lineEnd => rfl
  | word edge => cases edge <;> rfl

end Assertion

namespace Regex

variable {budget : Nat}

section Rows

variable (budget : Nat) (rest : List UInt8)

theorem decode?_nothing : decode? (budget + 1) (0 :: rest) = some (.nothing, rest) := by
  rw [decode?.eq_def]
  rfl

theorem decode?_empty : decode? (budget + 1) (1 :: rest) = some (.empty, rest) := by
  rw [decode?.eq_def]
  rfl

theorem decode?_bytes : decode? (budget + 1) (2 :: rest) =
    (ByteSet.decode? rest).map fun (set, rest) => (.bytes set, rest) := by
  rw [decode?.eq_def]
  rfl

theorem decode?_assertion (code : UInt8) : decode? (budget + 1) (3 :: code :: rest) =
    (Assertion.ofCode? code).map fun condition => (.assertion condition, rest) := rfl

theorem decode?_seq : decode? (budget + 1) (4 :: rest) =
    (decode? budget rest).bind fun p =>
      (decode? budget p.2).map fun (s, rest) => (.seq p.1 s, rest) := by
  simp only [decode?]
  cases decode? budget rest with
  | none | some => rfl

theorem decode?_alt : decode? (budget + 1) (5 :: rest) =
    (decode? budget rest).bind fun p =>
      (decode? budget p.2).map fun (s, rest) => (.alt p.1 s, rest) := by
  simp only [decode?]
  cases decode? budget rest with
  | none | some => rfl

theorem decode?_repetition : decode? (budget + 1) (6 :: rest) =
    (Numeral.decode? rest).bind fun p => (Numeral.decodeOption? p.2).bind fun q =>
      (decode? budget q.2).map fun (r, rest) => (.repetition r p.1 q.1, rest) := by
  simp only [decode?]
  cases Numeral.decode? rest with
  | none => rfl
  | some p =>
      simp only [Option.bind_some]
      cases Numeral.decodeOption? p.2 with
      | none | some => rfl

theorem decodeAll?_zero : decodeAll? (budget + 1) (0 :: rest) = some ([], rest) := rfl

theorem decodeAll?_one : decodeAll? (budget + 1) (1 :: rest) =
    (decode? budget rest).bind fun p =>
      (decodeAll? budget p.2).map fun (rs, rest) => (p.1 :: rs, rest) := by
  simp only [decodeAll?]
  cases decode? budget rest with
  | none | some => rfl

/-- No other tag is read. -/
theorem tag_of_decode? {tag : UInt8} {p : Regex × List UInt8}
    (found : decode? (budget + 1) (tag :: rest) = some p) :
    tag = 0 ∨ tag = 1 ∨ tag = 2 ∨ tag = 3 ∨ tag = 4 ∨ tag = 5 ∨ tag = 6 := by
  by_contra unknown
  simp only [not_or] at unknown
  rw [decode?.eq_def] at found
  simp [unknown] at found

end Rows

theorem length_encode_pos (r : Regex) : 0 < r.encode.length := by
  cases r <;> exact Nat.succ_pos _

/-- A budget of one for each byte is enough. -/
theorem decode?_encode (r : Regex) (rest : List UInt8) (enough : r.encode.length ≤ budget) :
    decode? budget (r.encode ++ rest) = some (r, rest) := by
  induction budget generalizing r rest with
  | zero => exact absurd enough (Nat.not_le_of_gt r.length_encode_pos)
  | succ budget ih =>
      cases r with
      | nothing => exact decode?_nothing budget rest
      | empty => exact decode?_empty budget rest
      | bytes set =>
          rw [encode, List.cons_append, decode?_bytes, ByteSet.decode?_encode, Option.map_some]
      | assertion condition =>
          simp only [encode, List.cons_append, List.nil_append]
          rw [decode?_assertion, Assertion.ofCode?_code, Option.map_some]
      | seq r s =>
          simp only [encode, List.length_cons, List.length_append] at enough
          rw [encode, List.cons_append, List.append_assoc, decode?_seq, ih r _ (by omega),
            Option.bind_some, ih s rest (by omega), Option.map_some]
      | alt r s =>
          simp only [encode, List.length_cons, List.length_append] at enough
          rw [encode, List.cons_append, List.append_assoc, decode?_alt, ih r _ (by omega),
            Option.bind_some, ih s rest (by omega), Option.map_some]
      | repetition r least extra =>
          simp only [encode, List.length_cons, List.length_append] at enough
          rw [encode, List.cons_append, List.append_assoc, List.append_assoc, decode?_repetition,
            Numeral.decode?_encode, Option.bind_some, Numeral.decodeOption?_encodeOption,
            Option.bind_some, ih r rest (by omega), Option.map_some]

/-- What a budget is enough for, a larger one is. -/
theorem readsOn_decode? {budget' : Nat} (le : budget ≤ budget') :
    ReadsOn (decode? budget) (decode? budget') := by
  induction budget generalizing budget' with
  | zero =>
      intro bytes r rest found
      cases found
  | succ budget ih =>
      obtain ⟨budget', rfl⟩ := Nat.exists_eq_add_of_le' (Nat.le_trans (Nat.succ_pos budget) le)
      have further : ReadsOn (decode? budget) (decode? budget') := ih (Nat.le_of_succ_le_succ le)
      intro bytes r rest found more
      cases bytes with
      | nil => cases found
      | cons tag bytes =>
          rw [List.cons_append]
          obtain rfl | rfl | rfl | rfl | rfl | rfl | rfl := tag_of_decode? budget bytes found
          · rw [decode?_nothing] at found ⊢
            exact ReadsOn.pure Regex.nothing found more
          · rw [decode?_empty] at found ⊢
            exact ReadsOn.pure Regex.empty found more
          · rw [decode?_bytes] at found ⊢
            exact ByteSet.readsOn_decode?.map Regex.bytes found more
          · cases bytes with
            | nil => cases found
            | cons code bytes =>
                rw [decode?_assertion] at found
                rw [List.cons_append, decode?_assertion]
                obtain ⟨condition, read, made⟩ := Option.map_eq_some_iff.mp found
                obtain ⟨rfl, rfl⟩ := Prod.mk.inj made
                rw [read, Option.map_some]
          · rw [decode?_seq] at found ⊢
            exact further.bind (fun r => further.map r.seq) found more
          · rw [decode?_alt] at found ⊢
            exact further.bind (fun r => further.map r.alt) found more
          · rw [decode?_repetition] at found ⊢
            exact Numeral.readsOn_decode?.bind (fun least => Numeral.readsOn_decodeOption?.bind
              fun extra => further.map (Regex.repetition · least extra)) found more

theorem decodeAll?_encodeAll (rs : List Regex) (rest : List UInt8)
    (enough : (encodeAll rs).length ≤ budget) :
    decodeAll? budget (encodeAll rs ++ rest) = some (rs, rest) := by
  induction rs generalizing budget with
  | nil =>
      obtain ⟨budget, rfl⟩ := Nat.exists_eq_add_of_le' enough
      exact decodeAll?_zero budget rest
  | cons r rs ih =>
      simp only [encodeAll, List.length_cons, List.length_append] at enough
      obtain ⟨budget, rfl⟩ : ∃ n, budget = n + 1 := ⟨budget - 1, by omega⟩
      rw [encodeAll, List.cons_append, List.append_assoc, decodeAll?_one,
        decode?_encode r _ (by omega), Option.bind_some, ih (by omega), Option.map_some]

theorem readsOn_decodeAll? {budget' : Nat} (le : budget ≤ budget') :
    ReadsOn (decodeAll? budget) (decodeAll? budget') := by
  induction budget generalizing budget' with
  | zero =>
      intro bytes rs rest found
      cases found
  | succ budget ih =>
      obtain ⟨budget', rfl⟩ := Nat.exists_eq_add_of_le' (Nat.le_trans (Nat.succ_pos budget) le)
      have le : budget ≤ budget' := Nat.le_of_succ_le_succ le
      intro bytes rs rest found more
      cases bytes with
      | nil => cases found
      | cons tag bytes =>
          rw [List.cons_append]
          by_cases zero : tag = 0
          · subst zero
            rw [decodeAll?_zero] at found ⊢
            exact ReadsOn.pure [] found more
          · by_cases one : tag = 1
            · subst one
              rw [decodeAll?_one] at found ⊢
              exact (readsOn_decode? le).bind (fun r => (ih le).map (r :: ·)) found more
            · rw [decodeAll?, if_neg zero, if_neg one] at found
              cases found

end Regex

namespace Automaton

theorem decodeBody?_cons (flag : UInt8) (rest : List UInt8) (known : flag ≤ 1) :
    decodeBody? (flag :: rest) = (ByteSet.decode? rest).bind fun p =>
      (Regex.decodeAll? (p.2.length + 1) p.2).map fun (patterns, rest) =>
        ({ patterns, anchored := flag == 1, quits := p.1 }, rest) := by
  rw [decodeBody?, if_pos known]
  cases ByteSet.decode? rest with
  | none | some => rfl

theorem decode?_label (rest : List UInt8) : decode? (label ++ rest) = decodeBody? rest := by
  rw [decode?, if_pos (List.isPrefixOf_iff_prefix.mpr (List.prefix_append label rest)),
    List.drop_left]

theorem decode?_encode (a : Automaton) (rest : List UInt8) :
    decode? (a.encode ++ rest) = some (a, rest) := by
  obtain ⟨patterns, anchored, quits⟩ := a
  have enough : (Regex.encodeAll patterns).length ≤
      (Regex.encodeAll patterns ++ rest).length + 1 := by
    rw [List.length_append]
    omega
  have known : (if anchored then 1 else 0 : UInt8) ≤ 1 := by
    cases anchored with
    | false | true => decide
  have anchor : ((if anchored then 1 else 0 : UInt8) == 1) = anchored := by
    cases anchored with
    | false | true => rfl
  rw [encode, List.append_assoc, decode?_label, List.cons_append, List.append_assoc,
    decodeBody?_cons _ _ known, ByteSet.decode?_encode, Option.bind_some,
    Regex.decodeAll?_encodeAll patterns rest enough, Option.map_some, anchor]

theorem readsOn_decodeBody? : ReadsOn decodeBody? decodeBody? := by
  have patterns : ReadsOn (fun bytes => Regex.decodeAll? (bytes.length + 1) bytes)
      (fun bytes => Regex.decodeAll? (bytes.length + 1) bytes) := by
    intro bytes rs rest found more
    refine Regex.readsOn_decodeAll? ?_ found more
    rw [List.length_append]
    omega
  intro bytes a rest found more
  cases bytes with
  | nil => cases found
  | cons flag bytes =>
      by_cases known : flag ≤ 1
      · rw [decodeBody?_cons flag bytes known] at found
        rw [List.cons_append, decodeBody?_cons flag _ known]
        exact ByteSet.readsOn_decode?.bind
          (fun quits => patterns.map (Automaton.mk · (flag == 1) quits)) found more
      · rw [decodeBody?, if_neg known] at found
        cases found

theorem readsOn_decode? : ReadsOn decode? decode? := by
  intro bytes a rest found more
  rw [decode?] at found
  split at found
  next labelled =>
    obtain ⟨body, rfl⟩ := List.isPrefixOf_iff_prefix.mp labelled
    rw [List.drop_left] at found
    rw [List.append_assoc, decode?_label]
    exact readsOn_decodeBody? found more
  next => cases found

/-- Automata are stored so that each tells its own end. -/
theorem selfDelimiting_encoding : encoding.SelfDelimiting where
  reads a rest := by
    show (decode? (a.encode ++ rest)).map _ = some (a, a.encode.length)
    rw [decode?_encode, Option.map_some]
    show some (a, (a.encode ++ rest).length - rest.length) = _
    rw [List.length_append, Nat.add_sub_cancel]
  refuses a n cut := by
    show (decode? (a.encode.take n)).map _ = none
    rw [readsOn_decode?.take_eq_none (decode?_encode a) cut, Option.map_none]
  nothing := rfl

end Automaton

end TableParsing
