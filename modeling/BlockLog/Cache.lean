import BlockLog.Region

/-! The read cache: one slot per remainder of the block number, so each block has one slot it can be
    in and shares it with every block of the same remainder. A slot is either valid for one block
    or invalid. A lookup that misses gives up what the slot held before it starts to fill it; if
    the fill breaks off, the slot stays invalid, with whatever the fill left in its buffer.

    Making a cache is refused if its table passes the largest allocation, if one of its buffers does,
    or if table and buffers together are more than memory can have. As with every region, refusals
    of an allocator below these limits are left out. -/

namespace BlockLog

/-- One slot: the block it is valid for, if any, and its buffer. -/
structure Slot where
  block : Option Nat
  buffer : Bytes
  deriving DecidableEq

def Slot.isValid (s : Slot) : Bool := s.block.isSome

/-- A cache of blocks of `blockSize` bytes. -/
structure Cache where
  slots : List Slot
  blockSize : Nat
  deriving DecidableEq

namespace Cache

/-- The bytes that the table of slots takes up for each slot, buffers not counted. -/
def slotOverhead : Nat := 56

/-- The bytes that a cache takes up: its table, and for each slot a buffer with room to align it. -/
def footprint (slots blockSize : Nat) : Nat := slots * (slotOverhead + (blockSize + blockSize))

/-- A cache of `slots` invalid slots with zeroed buffers, all of them in memory at once. -/
def new (slots blockSize : Nat) : Except LogError Cache :=
  if slots = 0 then .error (.settings .noCacheSlot)
  else if allocationLimit < slots * slotOverhead then .error (.outOfMemory .readCache)
  else match Region.allocate blockSize blockSize with
    | .error e => .error e
    | .ok region =>
      if countLimit < footprint slots blockSize then .error (.outOfMemory .region)
      else
        .ok { slots := List.replicate slots { block := none, buffer := region.contents.toList }
              blockSize := blockSize }

def length (c : Cache) : Nat := c.slots.length

def isEmpty (c : Cache) : Bool := c.slots.isEmpty

/-- The slot that `block` belongs in. -/
def placeOf (c : Cache) (block : Nat) : Nat := block % c.slots.length

/-- The slot at `index`, if there is one. -/
def slot? (c : Cache) (index : Nat) : Option Slot := c.slots[index]?

/-- The slot that `block` belongs in, valid for it or not. -/
def slotOf (c : Cache) (block : Nat) : Slot :=
  (c.slot? (c.placeOf block)).getD { block := none, buffer := [] }

/-- The bytes of `block`, if the cache holds it. -/
def get? (c : Cache) (block : Nat) : Option Bytes :=
  if (c.slotOf block).block = some block then some (c.slotOf block).buffer else none

def setSlot (c : Cache) (index : Nat) (s : Slot) : Cache :=
  { c with slots := c.slots.set index s }

/-- Drop `block`, and say whether the cache held it. Another block in its slot stays. -/
def evict (c : Cache) (block : Nat) : Cache × Bool :=
  if (c.slotOf block).block = some block then
    (c.setSlot (c.placeOf block) { c.slotOf block with block := none }, true)
  else (c, false)

/-- Put a filled buffer into the slot of `block`. The slot becomes valid for `block` if the fill
    went through, and invalid if it failed. -/
def install {ε : Type} (c : Cache) (block : Nat) (buffer : Bytes) (outcome : Except ε Unit) :
    Cache × Except ε Bytes :=
  match outcome with
  | .ok () => (c.setSlot (c.placeOf block) { block := some block, buffer := buffer }, .ok buffer)
  | .error e => (c.setSlot (c.placeOf block) { block := none, buffer := buffer }, .error e)

/-- Look `block` up; on a miss run `fill` on the slot's buffer, any part of which it may write over
    before it succeeds or fails. The answer has the slot's bytes and whether they were there
    already. -/
def fetch {ε : Type} (c : Cache) (block : Nat) (fill : Bytes → Bytes × Except ε Unit) :
    Cache × Except ε (Bytes × Bool) :=
  match c.get? block with
  | some bytes => (c, .ok (bytes, true))
  | none =>
    let (buffer, outcome) := fill (c.slotOf block).buffer
    let (cache, result) := c.install block buffer outcome
    (cache, result.map fun bytes => (bytes, false))

end Cache

end BlockLog
