import BlockLog.Region

/-! The write buffer: a ring of bytes sized to whole device blocks. Bytes come in at `head`, blocks
    leave at `tail`, and `tailOffset` says where on the device the block at `tail` belongs.

        storage:  ┌────────┬──────────────────┬───────────┐
                  │  free  │ buffered, filled │   free    │      the window may wrap around
                  └────────┴──────────────────┴───────────┘
                           ▲ tail             ▲ head

    A flush pads the last block with zeros, and once it has been popped it takes the padding back:
    `takeBack` undoes the pop of that block, so that the next bytes go on behind the real ones. The
    bytes of a popped block are still in the storage, for a pop moves `tail` and writes nothing. -/

namespace BlockLog

/-- A ring of `blocks` blocks of `blockSize` bytes each. -/
structure Ring where
  storage : Store
  blockSize : Nat
  blocks : Nat
  head : Nat := 0
  tail : Nat := 0
  filled : Nat := 0
  tailOffset : Nat := 0
  deriving DecidableEq

namespace Ring

def capacity (r : Ring) : Nat := r.blockSize * r.blocks

/-- Bytes that can still be pushed. -/
def free (r : Ring) : Nat := r.capacity - r.filled

/-- The position behind the last buffered byte, counted from the start of the device. -/
def endOffset (r : Ring) : Nat := r.tailOffset + r.filled

/-- At least one whole block is buffered. -/
def blockReady (r : Ring) : Bool := decide (r.blockSize ≤ r.filled)

/-- An empty ring of `blocks` blocks of `blockSize` bytes. -/
def new (blockSize blocks : Nat) : Except LogError Ring :=
  if blockSize = 0 ∨ blocks = 0 then .error (.settings (.emptyRing blocks blockSize))
  else if countLimit < blockSize * blocks then .error (.outOfMemory .writeBuffer)
  else match Region.allocate (blockSize * blocks) blockSize with
    | .error e => .error e
    | .ok region => .ok { storage := region.contents, blockSize := blockSize, blocks := blocks }

/-- Copy `bytes` in at the head, one contiguous span after the other: a span ends with the bytes or
    with the storage, whichever comes first. At most `spans` spans are copied. -/
def copySpans : Nat → Ring → Bytes → Ring
  | 0, r, _ => r
  | _ + 1, r, [] => r
  | spans + 1, r, b :: bs =>
    let span := min (r.capacity - r.head) (b :: bs).length
    copySpans spans
      { r with
        storage := r.storage.overwrite r.head ((b :: bs).take span)
        head := (r.head + span) % r.capacity }
      ((b :: bs).drop span)

/-- Push the first bytes, as many as there is room for. The number taken comes with the ring. -/
def push (r : Ring) (bytes : Bytes) : Ring × Nat :=
  let n := min bytes.length r.free
  let copied := copySpans n r (bytes.take n)
  ({ copied with filled := copied.filled + n }, n)

/-- The oldest block. Only meaningful where a whole block is buffered. -/
def oldest (r : Ring) : Bytes := r.storage.slice r.tail r.blockSize

/-- Let go of the oldest block. Only meaningful where a whole block is buffered. -/
def dropOldest (r : Ring) : Ring :=
  { r with
    tail := (r.tail + r.blockSize) % r.capacity
    filled := r.filled - r.blockSize
    tailOffset := r.tailOffset + r.blockSize }

/-- How many zeros complete the last block. -/
def padding (r : Ring) : Nat :=
  if r.filled % r.blockSize = 0 then 0 else r.blockSize - r.filled % r.blockSize

/-- Fill the last block up with zeros. The number of zeros comes with the ring. -/
def fillUp (r : Ring) : Ring × Nat :=
  if r.padding = 0 then (r, 0)
  else
    ({ r with
       storage := r.storage.overwrite r.head (Bytes.zeros r.padding)
       head := (r.head + r.padding) % r.capacity
       filled := r.filled + r.padding }, r.padding)

/-- Take back the last popped block without the `pad` zeros at its end. Only meaningful where the
    ring is empty, a block has been popped and `0 < pad < blockSize`. -/
def takeBack (r : Ring) (pad : Nat) : Ring :=
  { r with
    head := (r.head + r.capacity - pad) % r.capacity
    tail := (r.tail + r.capacity - r.blockSize) % r.capacity
    filled := r.blockSize - pad
    tailOffset := r.tailOffset - r.blockSize }

end Ring

end BlockLog
