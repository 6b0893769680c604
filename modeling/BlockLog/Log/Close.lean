import BlockLog.Log.Machine

/-! The steps of a close after its flush, whatever became of the flush. The writer is asked to stop,
    notified and waited for; then the device is synced, unless the log has degraded. The first
    error counts: that of the flush, then that of the writer, then that of the sync.

        stopping ──▶ stopped ──▶ joining ──▶ syncing ──▶ idle
                                    │                     ▲
                                    └── degraded ─────────┘ -/

namespace BlockLog.Machine

variable {δ : Type}

/-- Ask the writer to stop. -/
def askToStop? (m : Machine δ) (t : Nat) (flushed : Except LogError Unit) : Option (Machine δ) :=
  if m.locks.state = none then
    some ({ m with state := { m.state with stop := true } }.setClient t (.stopped flushed))
  else none

/-- Notify the writer that it has been asked to stop. -/
def announceStop (m : Machine δ) (t : Nat) (flushed : Except LogError Unit) : Machine δ :=
  m.notifyItem.setClient t (.joining flushed)

/-- How a close ends: the first error counts. -/
def closeReply (flushed joined synced : Except LogError Unit) : Reply :=
  match flushed, joined, synced with
  | .error e, _, _ => .error e
  | .ok (), .error e, _ => .error e
  | .ok (), .ok (), .error e => .error e
  | .ok (), .ok (), .ok () => .ok .done

/-- Whether a writer that is gone left in good order. -/
def joinResult (panicked : Bool) : Except LogError Unit :=
  if panicked then .error .writerPanicked else .ok ()

/-- Once the writer is gone, go on to the sync, or end without one on a degraded log. -/
def join? (m : Machine δ) (t : Nat) (flushed : Except LogError Unit) : Option (Machine δ) :=
  match m.writer with
  | .gone panicked =>
    if m.locks.state = none then
      if m.state.isDegraded then
        some (m.setClient t (.idle (some (closeReply flushed (joinResult panicked) (.ok ())))))
      else some (m.setClient t (.syncing flushed (joinResult panicked)))
    else none
  | _ => none

/-- Sync the device, if it is free, and end. -/
def lastSync? [Device δ] (m : Machine δ) (t : Nat) (flushed joined : Except LogError Unit) :
    Option (Machine δ) :=
  if m.locks.device = none then
    let sync := Device.sync m.device
    let synced := sync.outcome.mapError LogError.device
    some ({ m with device := sync.device }.setClient t
      (.idle (some (closeReply flushed joined synced))))
  else none

end BlockLog.Machine
