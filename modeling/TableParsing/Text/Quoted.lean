import TableParsing.Text.Hex
import TableParsing.Text.Unprintable

/-!
# Quoted text

Text and bytes as they are shown inside messages and traces: characters without a mark of their own
are written as escapes, so that a quoted text is one visible line.
-/

namespace TableParsing

namespace Quoted

/-- The escape of a character by its number. -/
def numeric (c : Char) : String := "\\u\x7b" ++ Hex.ofNat c.toNat ++ "\x7d"

/-- A character within double quotes. Quotes and backslashes are escaped, common controls have
letters, and other unprintable characters are written by number. Apostrophes stand for
themselves. -/
def char (c : Char) : String :=
  match c with
  | '\x00' => "\\0"
  | '\t' => "\\t"
  | '\r' => "\\r"
  | '\n' => "\\n"
  | '"' => "\\\""
  | '\\' => "\\\\"
  | c => if Unprintable.contains c then numeric c else String.singleton c

def text (s : String) : String :=
  "\"" ++ s.toList.foldl (fun acc c => acc ++ char c) "" ++ "\""

/-- A byte as messages show it: visible ASCII as a character in single quotes, all else as its
hexadecimal number. -/
def byte (b : UInt8) : String :=
  if 0x20 ≤ b ∧ b ≤ 0x7E then
    match Char.ofNat b.toNat with
    | '\'' => "'\\''"
    | '\\' => "'\\\\'"
    | c => "'" ++ String.singleton c ++ "'"
  else "0x" ++ Hex.encode [b]

/-- A byte without quotes around it: visible ASCII as it is, but quotes and backslashes escaped, a
blank in single quotes, three controls by letter, and all else by two uppercase digits. -/
def bareByte (b : UInt8) : String :=
  if 0x20 ≤ b ∧ b ≤ 0x7E then
    match Char.ofNat b.toNat with
    | ' ' => "' '"
    | '\'' => "\\'"
    | '"' => "\\\""
    | '\\' => "\\\\"
    | c => String.singleton c
  else if b = 0x09 then "\\t"
  else if b = 0x0A then "\\n"
  else if b = 0x0D then "\\r"
  else "\\x" ++ String.ofList ((Hex.byteDigits b).map Char.toUpper)

end Quoted

end TableParsing
