import BlockLog.Hex

/-! A dump of bytes in rows of sixteen: the address, the bytes in hexadecimal, and the bytes as
    text, in which everything but a graphic ASCII character is a dot.

        00000010  61 62 63 00 …                                    abc.… -/

namespace BlockLog.HexDump

/-- Bytes in a row. -/
def rowSize : Nat := 16

/-- The width of the hexadecimal column: two digits a byte and a blank between two bytes. -/
def hexWidth : Nat := 47

/-- The character a byte is shown as. -/
def glyph (b : UInt8) : Char := if 0x21 ≤ b ∧ b ≤ 0x7e then Char.ofNat b.toNat else '.'

/-- The bytes of a row in hexadecimal, a blank between two of them. -/
def hexColumn (line : Bytes) : List Char := [' '].intercalate (line.map Hex.byte)

/-- Fill up with blanks on the right. -/
def padRight (width : Nat) (text : List Char) : List Char :=
  text ++ List.replicate (width - text.length) ' '

/-- One row: the bytes `line`, the first of which is at `address`. -/
def row (address : Nat) (line : Bytes) : List Char :=
  Hex.padded 8 address ++ [' ', ' '] ++ padRight hexWidth (hexColumn line) ++ [' ', ' '] ++
    line.map glyph

/-- The rows for lines that follow each other from `address` on. -/
def rowsFrom (address : Nat) : List Bytes → List (List Char)
  | [] => []
  | line :: rest => row address line :: rowsFrom (address + rowSize) rest

/-- The dump of bytes that start at `address`. -/
def rows (address : Nat) (bytes : Bytes) : List (List Char) :=
  rowsFrom address (bytes.chunks rowSize)

end BlockLog.HexDump
