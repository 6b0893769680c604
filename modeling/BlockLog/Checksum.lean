import BlockLog.Bytes
import BlockLog.Hex

/-! CRC-32 with the reflected polynomial `0xedb88320`: all ones at the start, the bits of each byte
    from the lowest up, and the complement at the end. -/

namespace BlockLog

/-- A CRC-32. -/
structure Checksum where
  value : UInt32
  deriving DecidableEq

namespace Checksum

def polynomial : UInt32 := 0xedb88320

/-- Take in one bit. -/
def shift (crc : UInt32) : UInt32 :=
  if crc &&& 1 = 1 then (crc >>> 1) ^^^ polynomial else crc >>> 1

/-- Take in one byte. -/
def addByte (crc : UInt32) (b : UInt8) : UInt32 := Nat.repeat shift 8 (crc ^^^ b.toUInt32)

/-- The checksum of a byte string. -/
def ofBytes (bytes : Bytes) : Checksum :=
  { value := bytes.foldl addByte 0xffffffff ^^^ 0xffffffff }

/-- The checksum in eight hexadecimal digits. -/
def text (c : Checksum) : String := String.ofList (Hex.padded 8 c.value.toNat)

end Checksum

end BlockLog
