/-!
# Text of bounded size

A bounded text accepts writes until one does not fit. That one is cut at the last character boundary
that fits, and from then on the limit is the size reached, so nothing later is added, not even what
would fit. The result is therefore a prefix of everything written.
-/

namespace TableParsing

/-- A text together with the number of bytes that it may reach. -/
structure BoundedText where
  text : String
  limit : Nat

namespace BoundedText

def empty (limit : Nat) : BoundedText := ⟨"", limit⟩

/-- The longest run of leading characters whose UTF-8 encodings fit into `room` bytes. -/
def fitting : Nat → List Char → List Char
  | _, [] => []
  | room, c :: cs => if c.utf8Size ≤ room then c :: fitting (room - c.utf8Size) cs else []

/-- Append one write, cut to what fits. A cut closes the text. -/
def write (t : BoundedText) (part : String) : BoundedText :=
  let room := t.limit - t.text.utf8ByteSize
  if part.utf8ByteSize ≤ room then { t with text := t.text ++ part }
  else
    let text := t.text ++ String.ofList (fitting room part.toList)
    { text, limit := text.utf8ByteSize }

def writeAll (t : BoundedText) (parts : List String) : BoundedText := parts.foldl write t

end BoundedText

end TableParsing
