/-!
# Flags of patterns

A group of a pattern can switch flags on and off for what it contains. Flags say how an item is read
and what the anchors and the dot mean. The flag that exchanges greedy and lazy repetition is
accepted and has no effect, since a scan looks for the longest match. The cases of Unicode letters
are not known here, so to ignore case is refused where characters are Unicode ones.
-/

namespace TableParsing

namespace Pattern

/-- The flags in force at a point of a pattern. -/
structure Flags where
  caseInsensitive : Bool
  multiLine : Bool
  dotMatchesLineFeed : Bool
  unicode : Bool
  deriving DecidableEq

namespace Flags

/-- The flags at the start of a pattern: items are code points. -/
def initial : Flags := ⟨false, false, false, true⟩

def set? (f : Flags) (letter : Char) (value : Bool) : Option Flags :=
  match letter with
  | 'i' => some { f with caseInsensitive := value }
  | 'm' => some { f with multiLine := value }
  | 's' => some { f with dotMatchesLineFeed := value }
  | 'u' => some { f with unicode := value }
  | 'U' => some f
  | _ => none

/-- Read flag letters up to the colon or parenthesis that ends them. `value` is what the letters
set, which a single minus sign changes to false and at least one letter must follow; no letter
occurs twice. -/
def readFrom (f : Flags) (value : Bool) (seen : List Char) (afterMinus : Bool) :
    List Char → Option (Flags × List Char)
  | [] => none
  | c :: rest =>
    if c = ':' ∨ c = ')' then if afterMinus then none else some (f, c :: rest)
    else if c = '-' then if value then readFrom f false seen true rest else none
    else if c ∈ seen then none
    else
      match f.set? c value with
      | some g => readFrom g value (c :: seen) false rest
      | none => none

/-- Read a group's flags, starting from those in force around it. -/
def read (f : Flags) (cs : List Char) : Option (Flags × List Char) :=
  (readFrom f true [] false cs).filter fun (g, _) => !(g.caseInsensitive && g.unicode)

end Flags

end Pattern

end TableParsing
