import BlockLog.Bytes

/-! Hexadecimal notation with lowercase digits: a byte has two of them, the high half first, and a
    number as many as it needs, or more where a width is asked for. -/

namespace BlockLog.Hex

/-- The digit for a value below sixteen. -/
def digit (n : Nat) : Char := if n < 10 then Char.ofNat (48 + n) else Char.ofNat (87 + n)

/-- The two digits of a byte. -/
def byte (b : UInt8) : List Char := [digit (b.toNat / 16), digit (b.toNat % 16)]

/-- The digits of a number, without leading zeros. -/
def digits (n : Nat) : List Char :=
  if n < 16 then [digit n] else digits (n / 16) ++ [digit (n % 16)]

/-- The digits of a number, with zeros in front up to `width` digits. -/
def padded (width n : Nat) : List Char :=
  List.replicate (width - (digits n).length) '0' ++ digits n

/-- The digits of a byte string. -/
def ofBytes (bytes : Bytes) : String := String.ofList (bytes.flatMap byte)

end BlockLog.Hex
