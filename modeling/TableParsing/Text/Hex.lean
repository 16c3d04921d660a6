/-!
# Hexadecimal text

Bytes and code points in lowercase hexadecimal digits.
-/

namespace TableParsing

namespace Hex

def digit (n : Nat) : Char :=
  if n < 10 then Char.ofNat (48 + n) else Char.ofNat (87 + n)

def byteDigits (b : UInt8) : List Char := [digit (b.toNat / 16), digit (b.toNat % 16)]

/-- Bytes as two digits each, without separators. -/
def encode (bytes : List UInt8) : String := String.ofList (bytes.flatMap byteDigits)

def ofNat (n : Nat) : String := String.ofList (Nat.toDigits 16 n)

end Hex

end TableParsing
