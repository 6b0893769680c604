import BlockLog.Bytes
import BlockLog.Error

/-! What the log asks of a device: a block size, and reads, writes and syncs that may fail. A device
    is a value, and every call gives the device as it is afterwards. A read hands over the bytes it
    transferred before it ended, also when it failed; a write may besides panic, that is, never
    return to its caller. -/

namespace BlockLog

/-- How a write ended. -/
inductive WriteOutcome where
  | done
  | failed (cause : DeviceError)
  | panicked
  deriving DecidableEq

/-- A write and the device after it. -/
structure WriteResult (δ : Type) where
  device : δ
  outcome : WriteOutcome

/-- A read, the device after it, and the bytes that came over: all of those asked for if it went
    through. -/
structure ReadResult (δ : Type) where
  device : δ
  bytes : Bytes
  outcome : Except DeviceError Unit

/-- A sync and the device after it. -/
structure SyncResult (δ : Type) where
  device : δ
  outcome : Except DeviceError Unit

/-- A store of bytes that is read and written in whole blocks. -/
class Device (δ : Type) where
  /-- The size that offsets and lengths are multiples of. -/
  blockSize : δ → Nat
  /-- Read `len` bytes from `offset` on. -/
  read : (device : δ) → (offset len : Nat) → ReadResult δ
  /-- Write the bytes at `offset`. -/
  write : (device : δ) → (offset : Nat) → (bytes : Bytes) → WriteResult δ
  /-- Force everything written so far onto the medium. -/
  sync : (device : δ) → SyncResult δ

/-- A request of `len` bytes at `offset` covers whole blocks. -/
def Aligned (offset len blockSize : Nat) : Prop :=
  blockSize ≠ 0 ∧ offset % blockSize = 0 ∧ len % blockSize = 0

instance (offset len blockSize : Nat) : Decidable (Aligned offset len blockSize) :=
  inferInstanceAs (Decidable (_ ∧ _ ∧ _))

/-- Accept a request that covers whole blocks. -/
def requireAligned (offset len blockSize : Nat) : Except DeviceError Unit :=
  if Aligned offset len blockSize then .ok () else .error (.misaligned offset len blockSize)

end BlockLog
