import BlockLog.Settings
import BlockLog.Store

/-! Zeroed memory that starts at an aligned address. The allocation asks for `len + align` bytes,
    so that an aligned start lies inside it wherever it lands; what is asked for may not pass the
    largest allocation there is. Nothing is built before that check.

    Only what no memory could ever hold is refused here. How much there really is, and so what an
    allocator refuses below these limits, is left out: a request within them is granted. -/

namespace BlockLog

/-- The most bytes that one allocation may ask for. -/
def allocationLimit : Nat := (1 <<< 63) - 1

/-- The largest count of bytes that can be spoken of at all, and the most that memory can have. -/
def countLimit : Nat := (1 <<< 64) - 1

/-- A stretch of memory and the alignment it was asked for with. -/
structure Region where
  contents : Store
  align : Nat
  deriving DecidableEq

namespace Region

/-- `len` zero bytes at an address that is a multiple of `align`. -/
def allocate (len align : Nat) : Except LogError Region :=
  if allocationLimit < len + align then .error (.outOfMemory .region)
  else .ok { contents := Store.zeros len, align := align }

def length (r : Region) : Nat := r.contents.size

def isEmpty (r : Region) : Bool := r.length == 0

/-- The region with `bytes` written at position `start`. -/
def write (r : Region) (start : Nat) (bytes : Bytes) : Region :=
  { r with contents := r.contents.overwrite start bytes }

/-- Whether the region starts at a multiple of its alignment: never for zero, always for a power of
    two. For any other alignment it hangs on where the memory lies, and there is no answer. -/
def isAligned? (r : Region) : Option Bool :=
  if r.align = 0 then some false else if isPowerOfTwo r.align then some true else none

end Region

end BlockLog
