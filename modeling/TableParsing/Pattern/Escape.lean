import TableParsing.Regex.Basic
import TableParsing.Regex.RangeSet

/-!
# Escapes of patterns

After a backslash, punctuation stands for itself, and letters stand for control characters, numbered
characters, classes or conditions. Other letters, digits and characters beyond ASCII are errors, so
that no escape is silently ignored. The classes of Unicode characters are not known here, so a class
by letter is refused where characters are Unicode ones.
-/

namespace TableParsing

namespace Pattern

inductive Escape where
  /-- A character, and whether it was written as a byte with exactly two hexadecimal digits. -/
  | literal (c : Char) (asByte : Bool)
  | characters (set : RangeSet) (negated : Bool)
  | assertion (condition : Assertion)
  | word (edge : WordEdge)

namespace Escape

def digits : RangeSet := .range 0x30 0x39

def spaces : RangeSet := .unions [.range 0x09 0x0D, .singleton 0x20]

/-- The ASCII letters and digits and the underscore. -/
def wordCharacters : RangeSet :=
  .unions [digits, .asciiUpper, .asciiLower, .singleton 0x5F]

def hexValue? (c : Char) : Option Nat :=
  if '0' ≤ c ∧ c ≤ '9' then some (c.toNat - 0x30)
  else if 'a' ≤ c ∧ c ≤ 'f' then some (c.toNat - 0x57)
  else if 'A' ≤ c ∧ c ≤ 'F' then some (c.toNat - 0x37)
  else none

def numbered? (ds : List Char) : Option Char :=
  match ds.mapM hexValue? with
  | some (v :: vs) =>
    let n := vs.foldl (fun acc d => acc * 16 + d) v
    if h : n.isValidChar then some (Char.ofNatAux n h) else none
  | _ => none

/-- Read a character's number: either in braces, or with a fixed count of digits. -/
def readNumbered (count : Nat) : List Char → Option (Escape × List Char)
  | '\x7b' :: rest =>
    match rest.dropWhile (· != '\x7d') with
    | _ :: after =>
      (numbered? (rest.takeWhile (· != '\x7d'))).map fun c => (.literal c false, after)
    | [] => none
  | cs =>
    if (cs.take count).length = count then
      (numbered? (cs.take count)).map fun c => (.literal c (count == 2), cs.drop count)
    else none

/-- The conditions on words that are written by name in braces. -/
def namedEdge? : List Char → Option WordEdge
  | ['s', 't', 'a', 'r', 't'] => some .start
  | ['e', 'n', 'd'] => some .stop
  | ['s', 't', 'a', 'r', 't', '-', 'h', 'a', 'l', 'f'] => some .startHalf
  | ['e', 'n', 'd', '-', 'h', 'a', 'l', 'f'] => some .stopHalf
  | _ => none

def isEdgeLetter (c : Char) : Bool := c.isAlpha || c == '-'

/-- Read what follows the letter of a word boundary. Braces that begin like a name have to hold one;
other braces are left to be read as a repetition. -/
def readBoundary : List Char → Option (Escape × List Char)
  | '\x7b' :: [] => none
  | '\x7b' :: c :: rest =>
    if isEdgeLetter c then
      match (c :: rest).dropWhile isEdgeLetter with
      | '\x7d' :: after =>
        (namedEdge? ((c :: rest).takeWhile isEdgeLetter)).map fun e => (.word e, after)
      | _ => none
    else some (.word .boundary, '\x7b' :: c :: rest)
  | cs => some (.word .boundary, cs)

/-- Punctuation, spaces and controls of ASCII can be escaped, except angle brackets, which stand for
conditions on words. -/
def isEscapable (c : Char) : Bool := c.toNat < 128 && !c.isAlphanum && c != '<' && c != '>'

/-- A class of ASCII characters, unless characters are Unicode ones. -/
def asciiClass? (unicode : Bool) (set : RangeSet) (negated : Bool) : Option Escape :=
  if unicode then none else some (.characters set negated)

/-- Read an escape, from behind its backslash. -/
def read (unicode : Bool) : List Char → Option (Escape × List Char)
  | [] => none
  | c :: rest =>
    match c with
    | 'x' => readNumbered 2 rest
    | 'u' => readNumbered 4 rest
    | 'U' => readNumbered 8 rest
    | 'd' => (asciiClass? unicode digits false).map (·, rest)
    | 'D' => (asciiClass? unicode digits true).map (·, rest)
    | 's' => (asciiClass? unicode spaces false).map (·, rest)
    | 'S' => (asciiClass? unicode spaces true).map (·, rest)
    | 'w' => (asciiClass? unicode wordCharacters false).map (·, rest)
    | 'W' => (asciiClass? unicode wordCharacters true).map (·, rest)
    | 'a' => some (.literal '\x07' false, rest)
    | 'f' => some (.literal '\x0c' false, rest)
    | 't' => some (.literal '\t' false, rest)
    | 'n' => some (.literal '\n' false, rest)
    | 'r' => some (.literal '\r' false, rest)
    | 'v' => some (.literal '\x0b' false, rest)
    | 'A' => some (.assertion .textStart, rest)
    | 'z' => some (.assertion .textEnd, rest)
    | 'b' => readBoundary rest
    | 'B' => some (.word .interior, rest)
    | '<' => some (.word .start, rest)
    | '>' => some (.word .stop, rest)
    | c => if isEscapable c then some (.literal c false, rest) else none

end Escape

end Pattern

end TableParsing
