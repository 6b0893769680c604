import BlockLog.Log.Machine

/-! The steps of a read after its flush. It takes the state lock and keeps it while it goes through
    the blocks of its range in order, one step a block. A block comes from the cache, or else from
    the device, for which the device must be free; a device read that fails ends the call, but not
    the log.

        readCalled ──▶ reading ──▶ idle
                        │   ▲
                        └───┘ one block -/

namespace BlockLog.Machine

variable {δ : Type}

/-- Take the state lock, if it is free. -/
def beginRead? (m : Machine δ) (t offset len : Nat) : Option (Machine δ) :=
  if m.locks.state = none then
    match m.state.failure with
    | some reason => some (m.setClient t (.idle (some (.error (.degraded reason)))))
    | none => some ((m.withStateLock (some (.client t))).setClient t (.reading offset len []))
  else none

/-- Release the state lock and reply. -/
def endRead (m : Machine δ) (t : Nat) (reply : Reply) : Machine δ :=
  (m.withStateLock none).setClient t (.idle (some reply))

/-- Where the next bytes of a read are: a block, a position in it, and how many bytes of it. -/
structure Segment where
  block : Nat
  within : Nat
  count : Nat
  deriving DecidableEq

/-- The next segment of a read of `len` bytes at `offset` of which `got` are there already. -/
def segment (blockSize offset len got : Nat) : Segment :=
  { block := (offset + got) / blockSize
    within := (offset + got) % blockSize
    count := min (blockSize - (offset + got) % blockSize) (len - got) }

/-- The cache had the block: count it and take the segment out of it. -/
def takeSegment (m : Machine δ) (t offset len : Nat) (got : Bytes) (s : Segment) (block : Bytes)
    (hit : Bool) : Machine δ :=
  { m with state := m.state.countLookup hit }.setClient t
    (.reading offset len (got ++ block.slice s.within s.count))

/-- Fetch the block of a segment from the device into the cache. -/
def fetchSegment [Device δ] (m : Machine δ) (t offset len : Nat) (got : Bytes) (s : Segment) :
    Machine δ :=
  let blockSize := m.state.ring.blockSize
  let read := Device.read m.device (s.block * blockSize) blockSize
  let buffer := (m.state.cache.slotOf s.block).buffer.overlay read.bytes
  let (cache, filled) := m.state.cache.install s.block buffer read.outcome
  let m := { m with device := read.device, state := { m.state with cache := cache } }
  match filled with
  | .ok block => m.takeSegment t offset len got s block false
  | .error e => m.endRead t (.error (.device e))

/-- One block of a read, or its end. -/
def stepRead? [Device δ] (m : Machine δ) (t offset len : Nat) (got : Bytes) :
    Option (Machine δ) :=
  if got.length < len then
    let s := segment m.state.ring.blockSize offset len got.length
    match m.state.cache.get? s.block with
    | some block => some (m.takeSegment t offset len got s block true)
    | none => if m.locks.device = none then some (m.fetchSegment t offset len got s) else none
  else some (m.endRead t (.ok (.bytes got)))

end BlockLog.Machine
