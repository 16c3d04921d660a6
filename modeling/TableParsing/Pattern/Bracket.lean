import TableParsing.Pattern.Escape
import TableParsing.Pattern.Flags
import TableParsing.Pattern.Nesting

/-!
# Bracketed classes of patterns

A class in brackets is a union of characters, ranges, named classes and nested classes. Two unions
can be combined by intersection, difference or symmetric difference, which group to the left. Case
folding comes before complement. In byte mode a class holds bytes, so characters beyond ASCII are
errors unless they are written as bytes.
-/

namespace TableParsing

namespace Pattern

namespace Bracket

/-- The greatest number that a class can hold. -/
def top (f : Flags) : Nat := if f.unicode then 0x10FFFF else 0xFF

/-- The number that a character stands for in a class. -/
def literal? (f : Flags) (c : Char) (asByte : Bool) : Option Nat :=
  if f.unicode || asByte || c.toNat < 128 then some c.toNat else none

/-- Add the other case of letters where the flags ask for it. -/
def fold (f : Flags) (s : RangeSet) : RangeSet := if f.caseInsensitive then s.foldCase else s

/-- The set that a class stands for, given its members and whether it is complemented. -/
def complementIf (f : Flags) (negated : Bool) (s : RangeSet) : RangeSet :=
  if negated then s.complement (top f) else s

/-- The classes that are written by name between colons. All are within ASCII. -/
def named? (name : String) : Option RangeSet :=
  match name with
  | "alnum" => some (.unions [Escape.digits, .asciiUpper, .asciiLower])
  | "alpha" => some (.unions [.asciiUpper, .asciiLower])
  | "ascii" => some (.range 0x00 0x7F)
  | "blank" => some (.unions [.singleton 0x09, .singleton 0x20])
  | "cntrl" => some (.unions [.range 0x00 0x1F, .singleton 0x7F])
  | "digit" => some Escape.digits
  | "graph" => some (.range 0x21 0x7E)
  | "lower" => some .asciiLower
  | "print" => some (.range 0x20 0x7E)
  | "punct" =>
    some (.unions [.range 0x21 0x2F, .range 0x3A 0x40, .range 0x5B 0x60, .range 0x7B 0x7E])
  | "space" => some Escape.spaces
  | "upper" => some .asciiUpper
  | "word" => some Escape.wordCharacters
  | "xdigit" => some (.unions [Escape.digits, .range 0x41 0x46, .range 0x61 0x66])
  | _ => none

/-- Read a class by name, from behind its opening bracket. Where there is none, the bracket opens a
nested class. -/
def readNamed (f : Flags) : List Char → Option (RangeSet × List Char)
  | ':' :: cs =>
    let (negated, cs) := match cs with
      | '^' :: rest => (true, rest)
      | cs => (false, cs)
    match cs.dropWhile (· != ':') with
    | ':' :: ']' :: rest =>
      (named? (String.ofList (cs.takeWhile (· != ':')))).map fun s =>
        (complementIf f negated (fold f s), rest)
    | _ => none
  | _ => none

/-- An item of a class: one number, or a set that cannot bound a range. -/
inductive Item where
  | number (n : Nat)
  | set (s : RangeSet)

def Item.members : Item → RangeSet
  | .number n => .singleton n
  | .set s => s

/-- Read a character or an escape of a class. Conditions cannot be members. -/
def readItem (f : Flags) : List Char → Option (Item × List Char)
  | [] => none
  | '\\' :: cs =>
    match Escape.read f.unicode cs with
    | some (.literal c asByte, rest) => (literal? f c asByte).map fun n => (.number n, rest)
    | some (.characters s negated, rest) => some (.set (complementIf f negated s), rest)
    | _ => none
  | c :: rest => (literal? f c false).map fun n => (.number n, rest)

/-- Read an item or a range of a class. A minus sign before the closing bracket or before another
one does not make a range. -/
def readRange (f : Flags) (cs : List Char) : Option (RangeSet × List Char) :=
  match readItem f cs with
  | none => none
  | some (first, '-' :: rest) =>
    match rest with
    | ']' :: _ | '-' :: _ => some (first.members, '-' :: rest)
    | _ =>
      match first, readItem f rest with
      | .number low, some (.number high, rest) =>
        if low ≤ high then some (.range low high, rest) else none
      | _, _ => none
  | some (first, rest) => some (first.members, rest)

inductive Operation where
  | intersection
  | difference
  | symmetricDifference

/-- A class or an operand within one: its set, and how deeply its notation nests. -/
structure Operand where
  set : RangeSet
  depth : Nat

/-- The members of a union read so far: their set, and how deeply the notation of each nests. -/
structure Members where
  set : RangeSet
  depths : List Nat

namespace Members

def none : Members := ⟨.empty, []⟩

def add (m : Members) (set : RangeSet) (depth : Nat) : Members :=
  ⟨m.set.union set, depth :: m.depths⟩

def operand (m : Members) : Operand := ⟨m.set, Nesting.ofParts m.depths⟩

end Members

/-- Apply the operation that is waiting for its second operand, if there is one. -/
def combine (f : Flags) (waiting : Option (Operand × Operation)) (right : Operand) : Operand :=
  match waiting with
  | none => right
  | some (left, operation) =>
    let s := fold f left.set
    let t := fold f right.set
    let set := match operation with
      | .intersection => s.intersection (top f) t
      | .difference => s.difference (top f) t
      | .symmetricDifference => s.symmetricDifference (top f) t
    ⟨set, max left.depth right.depth + 1⟩

/-- Read the members that a class begins with and that mean something else further on: minus signs,
or else one closing bracket. -/
def readLeading (cs : List Char) : Members × List Char :=
  match cs with
  | '-' :: _ =>
    let signs := cs.takeWhile (· == '-')
    (⟨.singleton 0x2D, signs.map fun _ => 0⟩, cs.dropWhile (· == '-'))
  | ']' :: rest => (Members.none.add (.singleton 0x5D) 0, rest)
  | cs => (.none, cs)

mutual

/-- Read a class, from behind its opening bracket. -/
def read : Nat → Flags → List Char → Option (Operand × List Char)
  | 0, _, _ => none
  | fuel + 1, f, cs =>
    let (negated, cs) := match cs with
      | '^' :: rest => (true, rest)
      | cs => (false, cs)
    let (members, cs) := readLeading cs
    match readMembers fuel f none members cs with
    | some (operand, rest) =>
      some (⟨complementIf f negated (fold f operand.set), operand.depth + 1⟩, rest)
    | none => none

/-- Read the members of a class up to its closing bracket. -/
def readMembers : Nat → Flags → Option (Operand × Operation) → Members → List Char →
    Option (Operand × List Char)
  | 0, _, _, _, _ => none
  | fuel + 1, f, waiting, members, cs =>
    match cs with
    | [] => none
    | ']' :: rest => some (combine f waiting members.operand, rest)
    | '[' :: rest =>
      match readNamed f rest with
      | some (s, rest) => readMembers fuel f waiting (members.add s 0) rest
      | none =>
        match read fuel f rest with
        | some (nested, rest) =>
          readMembers fuel f waiting (members.add nested.set nested.depth) rest
        | none => none
    | '&' :: '&' :: rest =>
      readMembers fuel f (some (combine f waiting members.operand, .intersection)) .none rest
    | '-' :: '-' :: rest =>
      readMembers fuel f (some (combine f waiting members.operand, .difference)) .none rest
    | '~' :: '~' :: rest =>
      readMembers fuel f (some (combine f waiting members.operand, .symmetricDifference)) .none rest
    | cs =>
      match readRange f cs with
      | some (s, rest) => readMembers fuel f waiting (members.add s 0) rest
      | none => none

end

end Bracket

end Pattern

end TableParsing
