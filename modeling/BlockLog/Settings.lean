import BlockLog.Error

/-! The settings a log is opened with, and the check that comes before anything is opened or
    allocated. The write buffer is complained about first, then the read cache, then the block
    size. -/

namespace BlockLog

/-- The settings of a log. Without a `blockSize` the device's own is used. -/
structure Settings where
  bufferBlocks : Nat := 32
  cacheBlocks : Nat := 256
  blockSize : Option Nat := none
  create : Bool := false
  deriving DecidableEq

/-- `n` is a power of two; zero is none. -/
def isPowerOfTwo (n : Nat) : Bool := n == 1 <<< n.log2

namespace Settings

/-- The first setting that no log can be opened with, if there is one. -/
def problem? (c : Settings) : Option SettingsError :=
  if c.bufferBlocks = 0 then some .noWriteBuffer
  else if c.cacheBlocks = 0 then some .noReadCache
  else match c.blockSize with
    | some size => if isPowerOfTwo size then none else some (.badBlockSize size)
    | none => none

/-- Accept the settings, or say what is wrong with them. -/
def check (c : Settings) : Except LogError Unit :=
  match c.problem? with
  | some problem => .error (.settings problem)
  | none => .ok ()

end Settings

end BlockLog
