import BlockLog.Log.Machine

/-! The steps of the background writer, which drains full blocks to the device, oldest first.

                     full block                    device free
        ready ──────────────────────▶ staged ──────────────────▶ inFlight
        │ │ ▲                            ▲                          │
        │ │ │ item                       │ full block               │ the write returns
        │ │ └──── asleep ◀── no block ── wrote ◀────────────────────┤
        │ └─────────▲                    │                          │ it panics
        │ stop, no block                 │ the write failed         │
        └──────────────▶ leaving ◀───────┴──────────────────────────┘
                            │
                            ▼
                        announcing ──▶ gone

    The state lock is free while a write is in flight, so appends go on into free space and reads
    fill the cache. A cached copy of the block is dropped before the write and again after it: the
    second time drops a copy that a read made in between. -/

namespace BlockLog.Machine

variable {δ : Type}

/-- The head of the writer's loop, under the state lock: take the oldest full block, or leave, or
    sleep. -/
def nextBlock (m : Machine δ) : Machine δ :=
  if m.state.ring.blockReady then
    let offset := m.state.ring.tailOffset
    { m with
      state := { m.state.forget (offset / m.state.ring.blockSize) with phase := .writing }
      writer := .staged offset m.state.ring.oldest }
  else
    { m with
      state := { m.state with phase := .waiting }
      writer := if m.state.stop then .leaving false else .asleep }

/-- Enter the device write. -/
def enterWrite (m : Machine δ) (offset : Nat) (block : Bytes) : Machine δ :=
  { m.withDeviceLock (some .writer) with writer := .inFlight offset block }

/-- The device write itself, up to its return. -/
def performWrite [Device δ] (m : Machine δ) (offset : Nat) (block : Bytes) : Machine δ :=
  let write := Device.write m.device offset block
  let point : WriterPoint :=
    match write.outcome with
    | .done => .wrote offset block (.ok ())
    | .failed e => .wrote offset block (.error e)
    | .panicked => .leaving true
  { m.withDeviceLock none with device := write.device, writer := point }

/-- Account for a write that went through, and go on with the next block. -/
def completeWrite (m : Machine δ) (offset : Nat) : Machine δ :=
  let state := (m.state.forget (offset / m.state.ring.blockSize)).popWritten
  let m := { m with state := state }.notifySpace
  let m := if state.draining ∧ state.ring.filled = 0 then m.notifyFlushed else m
  m.nextBlock

/-- Record that a write failed, and leave. -/
def failWrite (m : Machine δ) (offset : Nat) (cause : DeviceError) : Machine δ :=
  let block := offset / m.state.ring.blockSize
  { m with
    state := { m.state.forget block with failure := some (.writeFailed block cause) }
    writer := .leaving false }

/-- Say that the writer has left, and why, if it panicked and nothing has failed before. -/
def recordExit (m : Machine δ) (panicked : Bool) : Machine δ :=
  let failure :=
    if panicked ∧ m.state.failure = none then some Degradation.writerPanicked
    else m.state.failure
  { m with
    state := { m.state with failure := failure, phase := .exited }
    writer := .announcing panicked }

/-- Notify everybody that the writer has left. -/
def announceExit (m : Machine δ) (panicked : Bool) : Machine δ :=
  { m.notifySpace.notifyFlushed with writer := .gone panicked }

/-- The writer's next step, if it can take one. -/
def writerStep? [Device δ] (m : Machine δ) : Option (Machine δ) :=
  match m.writer with
  | .ready => if m.locks.state = none then some m.nextBlock else none
  | .asleep => none
  | .staged offset block =>
    if m.locks.device = none then some (m.enterWrite offset block) else none
  | .inFlight offset block => some (m.performWrite offset block)
  | .wrote offset _ outcome =>
    if m.locks.state = none then
      match outcome with
      | .ok () => some (m.completeWrite offset)
      | .error cause => some (m.failWrite offset cause)
    else none
  | .leaving panicked => if m.locks.state = none then some (m.recordExit panicked) else none
  | .announcing panicked => some (m.announceExit panicked)
  | .gone _ => none

end BlockLog.Machine
