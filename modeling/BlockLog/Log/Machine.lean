import BlockLog.Device
import BlockLog.Log.State

/-! The log as a machine of threads: one background writer and any number of clients, each standing
    at a point of its program. Between two steps a thread holds the locks it needs to hold there,
    and everything else is shared: the state, the device, the points themselves. A thread that
    sleeps on a condition has it in its point; a notification wakes every sleeper of that condition.

    Three locks: `append` lets one append or flush in at a time, `state` guards the state and is
    held between two steps only by a client that reads, `device` lets one call into the device at a
    time and is held between two steps only by a writer whose write is under way.

    Three conditions: the writer sleeps until there is an item for it, an append until there is
    space, a flush until everything is flushed. -/

namespace BlockLog

/-- A thread of the machine. -/
inductive Actor where
  | writer
  | client (index : Nat)
  deriving DecidableEq

/-- What a client can ask of a log. -/
inductive Request where
  | append (data : Bytes)
  | flush
  | read (offset len : Nat)
  | close
  deriving DecidableEq

/-- What a call that succeeds answers. -/
inductive Answer where
  | offset (start : Nat)
  | done
  | bytes (data : Bytes)
  deriving DecidableEq

/-- The offset that an append answers. -/
def Answer.start : Answer → Nat
  | .offset start => start
  | _ => 0

/-- The bytes that a read answers. -/
def Answer.data : Answer → Bytes
  | .bytes data => data
  | _ => []

/-- How a call ended. -/
abbrev Reply := Except LogError Answer

/-- What a flush is the first part of. -/
inductive Purpose where
  | flush
  | read (offset len : Nat)
  | close
  deriving DecidableEq

/-- Where a client stands. A point is named for what has happened so far: a call that is `called`
    wants the append lock, one that is `admitted` holds it and wants the state lock. -/
inductive ClientPoint where
  | idle (last : Option Reply)
  | appendCalled (data : Bytes)
  | appendAdmitted (data : Bytes)
  | appendWaiting (data rest : Bytes) (offset : Nat) (asleep : Bool)
  | flushCalled (purpose : Purpose)
  | flushAdmitted (purpose : Purpose)
  | flushWaiting (purpose : Purpose) (pad : Nat) (asleep : Bool)
  /-- The flush of a read is over; the state lock is wanted. -/
  | readCalled (offset len : Nat)
  /-- The state lock is held, and `got` has been read so far. -/
  | reading (offset len : Nat) (got : Bytes)
  /-- The flush of a close is over; the state lock is wanted, to ask the writer to stop. -/
  | stopping (flushed : Except LogError Unit)
  /-- The writer has been asked to stop and is still to be notified. -/
  | stopped (flushed : Except LogError Unit)
  /-- Waiting for the writer to be gone. -/
  | joining (flushed : Except LogError Unit)
  /-- The device lock is wanted, for the last sync. -/
  | syncing (flushed joined : Except LogError Unit)

/-- Where the writer stands. -/
inductive WriterPoint where
  /-- At the head of its loop; the state lock is wanted. -/
  | ready
  | asleep
  /-- A block has been copied out of the ring; the device lock is wanted. -/
  | staged (offset : Nat) (block : Bytes)
  /-- Inside the device write, with the device lock. -/
  | inFlight (offset : Nat) (block : Bytes)
  /-- The device write has returned; the state lock is wanted. -/
  | wrote (offset : Nat) (block : Bytes) (outcome : Except DeviceError Unit)
  /-- Out of its loop; the state lock is wanted, to say so. -/
  | leaving (panicked : Bool)
  /-- Everybody is still to be notified. -/
  | announcing (panicked : Bool)
  | gone (panicked : Bool)

/-- Who holds which lock. -/
structure Locks where
  append : Option Actor := none
  state : Option Actor := none
  device : Option Actor := none
  deriving DecidableEq

/-- A log on a device, with the threads that use it. -/
structure Machine (δ : Type) where
  device : δ
  state : LogState
  locks : Locks := {}
  writer : WriterPoint := .ready
  clients : List ClientPoint
  /-- The handle has been given up by a close; nobody calls any more. -/
  closed : Bool := false

/-! ### Notifications -/

/-- Wake an append that sleeps until there is space. -/
def ClientPoint.wakeForSpace : ClientPoint → ClientPoint
  | .appendWaiting data rest offset _ => .appendWaiting data rest offset false
  | p => p

/-- Wake a flush that sleeps until everything is flushed. -/
def ClientPoint.wakeForFlushed : ClientPoint → ClientPoint
  | .flushWaiting purpose pad _ => .flushWaiting purpose pad false
  | p => p

/-- Wake a writer that sleeps until there is an item. -/
def WriterPoint.wakeForItem : WriterPoint → WriterPoint
  | .asleep => .ready
  | p => p

/-- The client has no call under way. -/
def ClientPoint.isIdle : ClientPoint → Bool
  | .idle _ => true
  | _ => false

/-- The reply to the client's last call, if none is under way. -/
def ClientPoint.reply? : ClientPoint → Option Reply
  | .idle last => last
  | _ => none

/-- The writer is inside a device write. -/
def WriterPoint.isInFlight : WriterPoint → Bool
  | .inFlight .. => true
  | _ => false

namespace Machine

variable {δ : Type}

def notifySpace (m : Machine δ) : Machine δ :=
  { m with clients := m.clients.map ClientPoint.wakeForSpace }

def notifyFlushed (m : Machine δ) : Machine δ :=
  { m with clients := m.clients.map ClientPoint.wakeForFlushed }

def notifyItem (m : Machine δ) : Machine δ :=
  { m with writer := m.writer.wakeForItem }

/-! ### Locks and points -/

/-- Client `t` stands at `p` now. -/
def setClient (m : Machine δ) (t : Nat) (p : ClientPoint) : Machine δ :=
  { m with clients := m.clients.set t p }

def withAppendLock (m : Machine δ) (holder : Option Actor) : Machine δ :=
  { m with locks := { m.locks with append := holder } }

def withStateLock (m : Machine δ) (holder : Option Actor) : Machine δ :=
  { m with locks := { m.locks with state := holder } }

def withDeviceLock (m : Machine δ) (holder : Option Actor) : Machine δ :=
  { m with locks := { m.locks with device := holder } }

/-! ### Opening -/

/-- The machine of a log that has just been opened on `device`, with `clients` clients. -/
def start (device : δ) (ring : Ring) (cache : Cache) (clients : Nat) : Machine δ :=
  { device := device
    state := { ring := ring, cache := cache }
    clients := List.replicate clients (.idle none) }

/-- The machine with at least `n` clients, the new ones idle. -/
def withClients (m : Machine δ) (n : Nat) : Machine δ :=
  { m with clients := m.clients ++ List.replicate (n - m.clients.length) (.idle none) }

/-- Start a log on `device`. The settings are checked, then the device's block size; then the write
    buffer, the read cache and the writer's own block are allocated, in that order. -/
def open? [Device δ] (device : δ) (settings : Settings) (clients : Nat) :
    Except LogError (Machine δ) := do
  settings.check
  let blockSize := Device.blockSize device
  if blockSize = 0 then throw (.device (.refused .zeroBlockSize))
  let ring ← Ring.new blockSize settings.bufferBlocks
  let cache ← Cache.new settings.cacheBlocks blockSize
  let _ ← Region.allocate blockSize blockSize
  return start device ring cache clients

end Machine

end BlockLog
