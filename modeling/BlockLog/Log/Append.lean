import BlockLog.Log.Machine

/-! The steps of an append. It takes the append lock, and with it, section by section, pushes its
    bytes; whenever the ring is full it sleeps until the writer has made space. The offset it
    answers is the end of the log when it was let in, and nobody else appends before it is done.

        appendCalled ──▶ appendAdmitted ──▶ idle
                               │              ▲
                               ▼   space      │
                         appendWaiting ───────┘      (and round again while the ring is full) -/

namespace BlockLog.Machine

variable {δ : Type}

/-- Take the append lock, if it is free. -/
def admitAppend? (m : Machine δ) (t : Nat) (data : Bytes) : Option (Machine δ) :=
  if m.locks.append = none then
    some ((m.withAppendLock (some (.client t))).setClient t (.appendAdmitted data))
  else none

/-- Release the append lock and reply. -/
def endAppend (m : Machine δ) (t : Nat) (reply : Reply) : Machine δ :=
  (m.withAppendLock none).setClient t (.idle (some reply))

/-- One critical section: push as much of `rest` as fits. -/
def feedAppend (m : Machine δ) (t : Nat) (data rest : Bytes) (offset : Nat) : Machine δ :=
  let fed := m.state.feed rest
  let m := { m with state := fed.state }
  let m := if fed.notify then m.notifyItem else m
  match fed.progress with
  | .finished () =>
    { m with state := m.state.countAppended data.length }.endAppend t (.ok (.offset offset))
  | .blocked left => m.setClient t (.appendWaiting data left offset true)
  | .refused reason => m.endAppend t (.error (.degraded reason))

/-- The first critical section. A degraded log refuses even an empty append. -/
def beginAppend? (m : Machine δ) (t : Nat) (data : Bytes) : Option (Machine δ) :=
  if m.locks.state = none then
    match m.state.failure with
    | some reason => some (m.endAppend t (.error (.degraded reason)))
    | none => some (m.feedAppend t data data m.state.ring.endOffset)
  else none

/-- A later critical section, once there has been space. -/
def resumeAppend? (m : Machine δ) (t : Nat) (data rest : Bytes) (offset : Nat) (asleep : Bool) :
    Option (Machine δ) :=
  if m.locks.state = none ∧ asleep = false then some (m.feedAppend t data rest offset) else none

end BlockLog.Machine
