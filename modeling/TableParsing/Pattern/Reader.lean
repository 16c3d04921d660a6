import TableParsing.Pattern.Basic
import TableParsing.Pattern.Bracket

/-!
# Reading the notation of patterns

A pattern is written as alternatives, separated by bars, of items one after the other, each perhaps
repeated. Groups nest and can change flags, for themselves or for the rest of the group around. What
is not a pattern is refused: open or unopened groups and classes, repetitions of nothing, counts in
the wrong order, unknown escapes, flags and properties, names that are given twice, and notation
that nests too deeply. So is the part of the notation that depends on tables of Unicode characters.
-/

namespace TableParsing

namespace Pattern

/-- Unicode white space, which may surround the counts of a repetition. -/
def isBlank (c : Char) : Bool :=
  let n := c.toNat
  (0x09 ≤ n && n ≤ 0x0D) || n == 0x20 || n == 0x85 || n == 0xA0 || n == 0x1680 ||
    (0x2000 ≤ n && n ≤ 0x200A) || n == 0x2028 || n == 0x2029 || n == 0x202F || n == 0x205F ||
    n == 0x3000

/-- Counts have at most 32 binary digits, so they are below this number. -/
def countLimit : Nat := 0x100000000

def readCount (cs : List Char) : Option (Nat × List Char) :=
  let cs := cs.dropWhile isBlank
  let ds := cs.takeWhile Char.isDigit
  let n := ds.foldl (fun acc d => acc * 10 + (d.toNat - 0x30)) 0
  if ds.isEmpty || n ≥ countLimit then none
  else some (n, (cs.dropWhile Char.isDigit).dropWhile isBlank)

/-- How many copies a repetition requires, and how many more it allows if their number
is bounded. -/
abbrev Bounds := Nat × Option Nat

/-- Read the counts of a repetition, from behind the opening brace. -/
def readCounts (cs : List Char) : Option (Bounds × List Char) :=
  match readCount cs with
  | some (least, ',' :: '\x7d' :: rest) => some ((least, none), rest)
  | some (least, ',' :: rest) =>
    match readCount rest with
    | some (most, '\x7d' :: rest) =>
      if least ≤ most then some ((least, some (most - least)), rest) else none
    | _ => none
  | some (count, '\x7d' :: rest) => some ((count, some 0), rest)
  | _ => none

/-- Read the sign of a repetition, and the sign of laziness behind it, which changes nothing. -/
def readRepetition (cs : List Char) : Option (Bounds × List Char) :=
  let bounds := match cs with
    | '?' :: rest => some ((0, some 1), rest)
    | '*' :: rest => some ((0, none), rest)
    | '+' :: rest => some ((1, none), rest)
    | '\x7b' :: rest => readCounts rest
    | _ => none
  match bounds with
  | some (bounds, '?' :: rest) => some (bounds, rest)
  | bounds => bounds

/-- The items that can stand for one code point or one byte of a set. -/
def item (f : Flags) (s : RangeSet) : Pattern := if f.unicode then .codePoint s else .byte s

/-- A character as an item. In byte mode, a character beyond ASCII is matched by its encoding,
unless it was written as a byte. -/
def literal (f : Flags) (c : Char) (asByte : Bool) : Pattern :=
  if f.unicode || asByte || c.toNat < 128 then item f (Bracket.fold f (.singleton c.toNat))
  else .codePoint (.singleton c.toNat)

/-- The dot: any item, except a line feed unless the flags include it. -/
def dot (f : Flags) : Pattern :=
  let excluded := if f.dotMatchesLineFeed then RangeSet.empty else .singleton 0x0A
  item f (excluded.complement (Bracket.top f))

/-- A condition on words of the characters that the flags ask for. -/
def wordCondition (f : Flags) (e : WordEdge) : Pattern :=
  if f.unicode then .unicodeWord e else .assertion (.word e)

def ofEscape (f : Flags) : Escape → Pattern
  | .literal c asByte => literal f c asByte
  | .characters s negated => item f (Bracket.complementIf f negated s)
  | .assertion condition => .assertion condition
  | .word e => wordCondition f e

inductive Opening where
  /-- A group with the given flags, and its name if it has one. -/
  | group (f : Flags) (name? : Option String)
  /-- New flags for the rest of the group around. -/
  | flags (f : Flags)

/-- A name of a group begins with a letter or an underscore; digits, dots and brackets
may follow. -/
def isGroupName : List Char → Bool
  | [] => false
  | c :: cs =>
    let starts (c : Char) : Bool := c.isAlpha || c == '_'
    starts c && cs.all fun c => starts c || c.isDigit || c == '.' || c == '[' || c == ']'

def readGroupName (f : Flags) (cs : List Char) : Option (Opening × List Char) :=
  let name := cs.takeWhile (· != '>')
  match cs.dropWhile (· != '>') with
  | _ :: rest => if isGroupName name then some (.group f (some (.ofList name)), rest) else none
  | [] => none

/-- Read the beginning of a group, from behind its parenthesis. Conditions on what surrounds a match
are refused. -/
def readOpening (f : Flags) : List Char → Option (Opening × List Char)
  | '?' :: 'P' :: '<' :: cs => readGroupName f cs
  | '?' :: '<' :: '=' :: _ | '?' :: '<' :: '!' :: _ => none
  | '?' :: '<' :: cs => readGroupName f cs
  | '?' :: ')' :: _ => none
  | '?' :: cs =>
    match Flags.read f cs with
    | some (g, ':' :: rest) => some (.group g none, rest)
    | some (g, ')' :: rest) => some (.flags g, rest)
    | _ => none
  | cs => some (.group f none, cs)

/-- A part of a pattern that has been read: what it means, how deeply its notation nests, and the
names of its groups. -/
structure Piece where
  meaning : Pattern
  depth : Nat
  names : List String := []

/-- An item of a sequence. A change of flags is one, and matches nothing. -/
abbrev Item := Option Piece

/-- The items of a sequence as one part, given the last one first. -/
def sequence (items : List Item) : Piece where
  meaning := items.foldl (fun acc it =>
    match it, acc with
    | none, acc => acc
    | some piece, .empty => piece.meaning
    | some piece, acc => .seq piece.meaning acc) .empty
  depth := Nesting.ofParts (items.map fun it => (it.map Piece.depth).getD 0)
  names := items.flatMap fun it => (it.map Piece.names).getD []

def anyOf : List Pattern → Pattern
  | [] => .empty
  | [p] => p
  | p :: ps => .alt p (anyOf ps)

def choice (pieces : List Piece) : Piece where
  meaning := anyOf (pieces.map Piece.meaning)
  depth := Nesting.ofParts (pieces.map Piece.depth)
  names := pieces.flatMap Piece.names

def grouped (name? : Option String) (pieces : List Piece) : Piece :=
  let inner := choice pieces
  { inner with depth := inner.depth + 1, names := name?.toList ++ inner.names }

def repeated (piece : Piece) (least : Nat) (extra : Option Nat) : Piece :=
  { piece with meaning := .repetition piece.meaning least extra, depth := piece.depth + 1 }

mutual

/-- Read alternatives up to the end of their group. -/
def readAlternatives : Nat → Flags → List Char → Option (List Piece × List Char)
  | 0, _, _ => none
  | fuel + 1, f, cs =>
    match readSequence fuel f [] cs with
    | some (piece, f, '|' :: rest) =>
      match readAlternatives fuel f rest with
      | some (pieces, rest) => some (piece :: pieces, rest)
      | none => none
    | some (piece, _, rest) => some ([piece], rest)
    | none => none

/-- Read the items of one alternative, given those already read, the last one first. The flags at
its end are also those of the next alternative. -/
def readSequence : Nat → Flags → List Item → List Char → Option (Piece × Flags × List Char)
  | 0, _, _, _ => none
  | fuel + 1, f, items, cs =>
    let single (p : Pattern) : List Item := some { meaning := p, depth := 0 } :: items
    match cs with
    | [] | '|' :: _ | ')' :: _ => some (sequence items, f, cs)
    | '(' :: rest =>
      match readOpening f rest with
      | some (.flags g, rest) => readSequence fuel g (none :: items) rest
      | some (.group g name?, rest) =>
        match readAlternatives fuel g rest with
        | some (pieces, ')' :: rest) =>
          readSequence fuel f (some (grouped name? pieces) :: items) rest
        | _ => none
      | none => none
    | '[' :: rest =>
      match Bracket.read (2 * rest.length + 2) f rest with
      | some (operand, rest) =>
        let piece : Piece := { meaning := item f operand.set, depth := operand.depth }
        readSequence fuel f (some piece :: items) rest
      | none => none
    | '\\' :: rest =>
      match Escape.read f.unicode rest with
      | some (e, rest) => readSequence fuel f (single (ofEscape f e)) rest
      | none => none
    | '?' :: _ | '*' :: _ | '+' :: _ | '\x7b' :: _ =>
      match items, readRepetition cs with
      | some piece :: items, some ((least, extra), rest) =>
        readSequence fuel f (some (repeated piece least extra) :: items) rest
      | _, _ => none
    | '.' :: rest => readSequence fuel f (single (dot f)) rest
    | '^' :: rest =>
      let start := if f.multiLine then Assertion.lineStart else .textStart
      readSequence fuel f (single (.assertion start)) rest
    | '$' :: rest =>
      let stop := if f.multiLine then Assertion.lineEnd else .textEnd
      readSequence fuel f (single (.assertion stop)) rest
    | c :: rest => readSequence fuel f (single (literal f c false)) rest

end

/-- The pattern that a text stands for, if it is well formed and all of its notation is known here.
Every call of the readers either takes a character or enters a sequence, so twice the length bounds
their depth. -/
def read? (text : String) : Option Pattern :=
  let cs := text.toList
  match readAlternatives (2 * cs.length + 2) .initial cs with
  | some (pieces, []) =>
    let whole := choice pieces
    if whole.depth ≤ Nesting.limit ∧ whole.names.Nodup then some whole.meaning else none
  | _ => none

end Pattern

end TableParsing
