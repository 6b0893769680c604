import BlockLog.Cache
import BlockLog.Ring

/-! What the state lock of a log guards, and the critical sections that client calls run under it.
    A section runs from taking the lock to releasing it, and so either finishes its call, or has to
    wait, or finds that the log has degraded.

    A flush pads the ring and waits until it is empty; `pad` keeps the number of padding bytes
    counted in `filled` meanwhile, so that the length of the log never counts them. -/

namespace BlockLog

/-- Where the background writer says it is. -/
inductive WriterPhase where
  | waiting
  | writing
  | exited
  deriving DecidableEq

/-- Running totals of a log. -/
structure Totals where
  /-- Bytes of finished appends. -/
  appendedBytes : Nat := 0
  /-- Blocks that the writer has written, padded ones included. -/
  writtenBlocks : Nat := 0
  /-- Flushes that found something buffered. -/
  flushes : Nat := 0
  /-- Block lookups answered by the cache. -/
  hits : Nat := 0
  /-- Block lookups answered by the device. -/
  misses : Nat := 0
  deriving DecidableEq

/-- Everything guarded by the state lock, and the totals. -/
structure LogState where
  ring : Ring
  cache : Cache
  phase : WriterPhase := .waiting
  /-- The writer should leave once no full block is buffered. -/
  stop : Bool := false
  /-- A flush waits for the ring to run empty. -/
  draining : Bool := false
  /-- Padding bytes counted in `ring.filled`. -/
  pad : Nat := 0
  /-- Why the log has degraded, if it has. -/
  failure : Option Degradation := none
  totals : Totals := {}
  deriving DecidableEq

/-- What a critical section of a call comes to. -/
inductive Progress (α β : Type) where
  | finished (result : α)
  | blocked (rest : β)
  | refused (reason : Degradation)
  deriving DecidableEq

/-- A critical section that is over: what it came to, the state it leaves, and whether it notifies
    the writer. -/
structure Section (α β : Type) where
  state : LogState
  progress : Progress α β
  notify : Bool := false
  deriving DecidableEq

namespace LogState

/-- The length of the log: every byte appended so far, on the device or buffered. -/
def length (s : LogState) : Nat := s.ring.endOffset - s.pad

def isDegraded (s : LogState) : Bool := s.failure.isSome

/-! ### Appending -/

/-- Push what is left of an append. What does not fit has to wait for space. The writer hears of
    every push that leaves a full block. -/
def feed (s : LogState) (rest : Bytes) : Section Unit Bytes :=
  if rest = [] then { state := s, progress := .finished () }
  else match s.failure with
    | some reason => { state := s, progress := .refused reason }
    | none =>
      if s.ring.free = 0 then { state := s, progress := .blocked rest }
      else
        let (ring, taken) := s.ring.push rest
        let left := rest.drop taken
        { state := { s with ring := ring }
          progress := if left = [] then .finished () else .blocked left
          notify := ring.blockReady }

/-- Count the bytes of a finished append. -/
def countAppended (s : LogState) (len : Nat) : LogState :=
  { s with totals := { s.totals with appendedBytes := s.totals.appendedBytes + len } }

/-! ### Flushing -/

/-- Start a flush. An empty ring has nothing to force out; any other is padded to whole blocks, and
    the flush waits for the writer. A flush that finishes gives the end of the log. -/
def beginFlush (s : LogState) : Section Nat Nat :=
  match s.failure with
  | some reason => { state := s, progress := .refused reason }
  | none =>
    if s.ring.filled = 0 then { state := s, progress := .finished s.ring.endOffset }
    else
      let (ring, pad) := s.ring.fillUp
      { state := { s with ring := ring, pad := pad, draining := true }
        progress := .blocked pad
        notify := true }

/-- Take back the padding of a flush whose ring has run empty. -/
def settleFlush (s : LogState) (pad : Nat) : LogState :=
  { s with
    ring := if 0 < pad then s.ring.takeBack pad else s.ring
    pad := 0
    totals := { s.totals with flushes := s.totals.flushes + 1 } }

/-- Go on with a flush: wait on while bytes are buffered and nothing has failed. -/
def resumeFlush (s : LogState) (pad : Nat) : Section Nat Nat :=
  if s.ring.filled ≠ 0 ∧ s.failure = none then { state := s, progress := .blocked pad }
  else
    let s := { s with draining := false }
    match s.failure with
    | some reason => { state := s, progress := .refused reason }
    | none =>
      { state := s.settleFlush pad, progress := .finished (s.settleFlush pad).ring.endOffset }

/-! ### Looking blocks up -/

/-- Count a lookup that succeeded. -/
def countLookup (s : LogState) (hit : Bool) : LogState :=
  if hit then { s with totals := { s.totals with hits := s.totals.hits + 1 } }
  else { s with totals := { s.totals with misses := s.totals.misses + 1 } }

/-! ### Draining -/

/-- Drop the cached copy of a block. -/
def forget (s : LogState) (block : Nat) : LogState :=
  { s with cache := (s.cache.evict block).1 }

/-- Let go of the block that has just been written. -/
def popWritten (s : LogState) : LogState :=
  { s with
    ring := s.ring.dropOldest
    totals := { s.totals with writtenBlocks := s.totals.writtenBlocks + 1 } }

end LogState

end BlockLog
