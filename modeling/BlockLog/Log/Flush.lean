import BlockLog.Log.Machine

/-! The steps of a flush, by itself or as the first part of a read or a close. It takes the append
    lock, pads the ring to whole blocks and sleeps until the writer has drained it; then it takes
    the padding back, and what it is part of goes on.

        flushCalled ──▶ flushAdmitted ──▶ what it is part of
                              │                  ▲
                              ▼     flushed      │
                        flushWaiting ────────────┘ -/

namespace BlockLog

/-- Where a client goes on after the flush of `purpose`, which gave the end of the log or failed. -/
def Purpose.next (purpose : Purpose) (flushed : Except LogError Nat) : ClientPoint :=
  match purpose, flushed with
  | .flush, .ok _ => .idle (some (.ok .done))
  | .flush, .error e => .idle (some (.error e))
  | .read offset len, .ok size =>
    if size < offset + len then .idle (some (.error (.readPastEnd offset len size)))
    else .readCalled offset len
  | .read _ _, .error e => .idle (some (.error e))
  | .close, .ok _ => .stopping (.ok ())
  | .close, .error e => .stopping (.error e)

namespace Machine

variable {δ : Type}

/-- Take the append lock, if it is free. -/
def admitFlush? (m : Machine δ) (t : Nat) (purpose : Purpose) : Option (Machine δ) :=
  if m.locks.append = none then
    some ((m.withAppendLock (some (.client t))).setClient t (.flushAdmitted purpose))
  else none

/-- Release the append lock and go on. -/
def endFlush (m : Machine δ) (t : Nat) (purpose : Purpose) (flushed : Except LogError Nat) :
    Machine δ :=
  (m.withAppendLock none).setClient t (purpose.next flushed)

/-- Leave a critical section of a flush. -/
def leaveFlush (m : Machine δ) (t : Nat) (purpose : Purpose) (s : Section Nat Nat) : Machine δ :=
  let m := { m with state := s.state }
  let m := if s.notify then m.notifyItem else m
  match s.progress with
  | .finished size => m.endFlush t purpose (.ok size)
  | .blocked pad => m.setClient t (.flushWaiting purpose pad true)
  | .refused reason => m.endFlush t purpose (.error (.degraded reason))

/-- The first critical section. -/
def beginFlush? (m : Machine δ) (t : Nat) (purpose : Purpose) : Option (Machine δ) :=
  if m.locks.state = none then some (m.leaveFlush t purpose m.state.beginFlush) else none

/-- A later critical section, once the flush has been woken. -/
def resumeFlush? (m : Machine δ) (t : Nat) (purpose : Purpose) (pad : Nat) (asleep : Bool) :
    Option (Machine δ) :=
  if m.locks.state = none ∧ asleep = false then
    some (m.leaveFlush t purpose (m.state.resumeFlush pad))
  else none

end Machine

end BlockLog
