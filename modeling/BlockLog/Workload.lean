import BlockLog.Log.Handle

/-! Several appenders at work on one log. Each has records to append, one after the other, and keeps
    the offsets it is given; one that meets an error stops there. In what order they get their turns
    is a schedule from outside, a list of turns; whatever is left when the list is over is done
    appender by appender. Client 0 of the log stays with its owner: appender `i` is client `i + 1`.

    Afterwards the records, in the order of their offsets, should tile the log: each starts where
    the one before it ends. -/

namespace BlockLog

/-- A record and the offset it was given. -/
structure Written where
  offset : Nat
  payload : Bytes
  deriving DecidableEq

def Written.stop (w : Written) : Nat := w.offset + w.payload.length

/-- The bytes of record number `record` of appender number `appender`. -/
def sampleRecord (appender record size : Nat) : Bytes :=
  (List.range size).map fun k => UInt8.ofNat ((appender * 31 + record * 7 + k) % 251)

/-- One appender: what it has still to append, what it is appending, and what it has appended, in
    that order of time. -/
structure Appender where
  pending : List Bytes
  current : Option Bytes := none
  written : List Written := []
  failure : Option LogError := none

/-- Take note of the reply to the append under way. -/
def Appender.settle (a : Appender) (reply : Reply) : Appender :=
  match a.current, reply with
  | none, _ => a
  | some payload, .ok answer =>
    { a with current := none, written := a.written ++ [{ offset := answer.start, payload }] }
  | some _, .error e => { a with current := none, pending := [], failure := some e }

/-- What an appender has come to: the records it has appended, or the error it has met. -/
def Appender.result (a : Appender) : Except LogError (List Written) :=
  match a.failure with
  | none => .ok a.written
  | some e => .error e

/-- Records in the order of their offsets. Those at one offset stay in the order they were in. -/
def byOffset (records : List Written) : List Written :=
  records.mergeSort fun a b => a.offset ≤ b.offset

/-- What can happen next in a workload: an appender starts its next append, or a thread of the log
    takes a step. -/
inductive Turn where
  | append (appender : Nat)
  | step (actor : Actor)
  deriving DecidableEq

/-- Appenders and the log they work on. -/
structure Workload (δ : Type) where
  machine : Machine δ
  appenders : List Appender

namespace Workload

variable {δ : Type} [Device δ]

/-- Set appenders to work on a log, each with its own records. -/
def start (m : Machine δ) (records : List (List Bytes)) : Workload δ :=
  { machine := m.withClients (records.length + 1)
    appenders := records.map fun pending => { pending } }

/-- Let appender `i` have the reply to its append, if that has finished. -/
def collect (w : Workload δ) (i : Nat) : Workload δ :=
  match w.appenders[i]?, w.machine.reply? (i + 1) with
  | some a, some reply => { w with appenders := w.appenders.set i (a.settle reply) }
  | _, _ => w

/-- Start the next append of appender `i`, if none of its is under way. -/
def submit (w : Workload δ) (i : Nat) : Workload δ :=
  match w.appenders[i]? with
  | some { pending := payload :: rest, current := none, written, failure } =>
    match w.machine.submit? (i + 1) (.append payload) with
    | some machine =>
      { machine := machine
        appenders := w.appenders.set i
          { pending := rest, current := some payload, written, failure } }
    | none => w
  | _ => w

/-- Take one turn; a turn that nobody can take passes. -/
def turn (w : Workload δ) : Turn → Workload δ
  | .append i => w.submit i
  | .step actor =>
    let w := { w with machine := (w.machine.step? actor).getD w.machine }
    match actor with
    | .client (i + 1) => w.collect i
    | _ => w

/-- Take the turns of a schedule. -/
def play (w : Workload δ) (schedule : List Turn) : Workload δ := schedule.foldl turn w

/-- Finish what is under way. -/
def settle (w : Workload δ) : Workload δ :=
  (List.range w.appenders.length).foldl collect { w with machine := w.machine.settle }

/-- Let appender `i` append all that it has left. -/
def finishAppender (w : Workload δ) (i : Nat) : Workload δ :=
  match w.appenders[i]? with
  | some a => a.pending.foldl (fun w _ => (w.submit i).settle) w
  | none => w

/-- Take the turns of a schedule, and then finish appender by appender. -/
def run (w : Workload δ) (schedule : List Turn) : Workload δ :=
  (List.range w.appenders.length).foldl finishAppender (w.play schedule).settle

/-- Everything appended, in the order of the offsets; of two records at one offset that of the earlier
    appender comes first. -/
def records (w : Workload δ) : List Written := byOffset (w.appenders.flatMap (·.written))

end Workload

/-! ### Checking -/

/-- Records that do not tile the log: the first one that starts elsewhere than expected. -/
structure Gap where
  expected : Nat
  found : Nat
  deriving DecidableEq

/-- Walk through the records, each of which should start where the one before it ends, and learn the
    end of the last one. -/
def tile (start : Nat) : List Written → Except Gap Nat
  | [] => .ok start
  | w :: rest => if w.offset = start then tile w.stop rest else .error ⟨start, w.offset⟩

/-- Each record of the list starts after the start of the one before it. -/
def ascending : List Written → Bool
  | a :: b :: rest => a.offset < b.offset && ascending (b :: rest)
  | _ => true

/-- What several appenders at once have left on a log. -/
structure TeamReport where
  start : Nat
  stop : Nat
  /-- The records tile the log from `start` to `stop`. -/
  tiles : Bool
  /-- Every appender's own offsets ascend. -/
  ordered : Bool
  /-- All records are read back. -/
  intact : Bool
  deriving DecidableEq

/-- Append the records of several appenders, read everything back in one go, and report. -/
def Log.appendTeam {δ : Type} [Device δ] (log : Log δ) (records : List (List Bytes)) :
    Log δ × TeamReport :=
  let start := log.length
  let w := (Workload.start log.machine records).run []
  let log : Log δ := { log with machine := w.machine }
  let stop := log.length
  let (log, back) := log.read start (stop - start)
  let tiles : Bool :=
    match tile start w.records with
    | .ok reached => reached == stop
    | .error _ => false
  let intact : Bool :=
    match back with
    | .ok data =>
      w.records.all fun r => data.slice (r.offset - start) r.payload.length == r.payload
    | .error _ => false
  (log, { start, stop, tiles, ordered := w.appenders.all fun a => ascending a.written, intact })

end BlockLog
