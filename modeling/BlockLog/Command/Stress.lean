import BlockLog.Command.Session
import BlockLog.Workload

/-! The stress test: several threads append records at once, in whatever order their turns come;
    then the records must tile the log from its start, and each must be read back as it was
    written.

    The room for appenders, for the records of one and for a payload is asked for before the first
    append; that for what the appenders come to, and for the list of all records, when they are
    through. Where more is asked for than one allocation can have, the test crashes. As with every
    region, refusals of an allocator below that limit are left out, and every appender gets its
    thread. -/

namespace BlockLog.Command

variable {δ : Type} [Device δ]

/-- The records of `threads` appenders, `records` each, of `size` bytes. -/
def stressRecords (threads records size : Nat) : List (List Bytes) :=
  (List.range threads).map fun t => (List.range records).map fun r => sampleRecord t r size

/-- Bytes of room that are asked for to keep track of an appender. -/
def appenderRoom : Nat := 24

/-- Bytes of room that are asked for to keep what an appender has come to. -/
def resultRoom : Nat := 32

/-- Bytes of room that are asked for to keep track of a record, its payload apart. -/
def recordRoom : Nat := 32

/-- There can be room to append: for the appenders; if there are any, for the records of one; and if
    there are any, for a payload. -/
def roomToAppend (threads records size : Nat) : Bool :=
  threads * appenderRoom ≤ allocationLimit &&
    (threads == 0 || records * recordRoom ≤ allocationLimit &&
      (records == 0 || size ≤ allocationLimit))

/-- How many records a list has room for that had room for `capacity` and is to have `needed`. If it
    must grow it doubles at least, and it never has room for fewer than four. -/
def grown (capacity needed : Nat) : Nat :=
  if needed ≤ capacity then capacity else max 4 (max (2 * capacity) needed)

/-- Add to the records so far, in a list with room for `capacity`, what the appenders have come to, one
    after the other. The first error ends it; a list that grows past the largest allocation is a
    crash. -/
def join (capacity : Nat) (joined : List Written) :
    List (Except LogError (List Written)) → Except Ending (List Written)
  | [] => .ok joined
  | .error e :: _ => .error (.failure (.log e))
  | .ok written :: rest =>
    let capacity := grown capacity (joined.length + written.length)
    if allocationLimit < capacity * recordRoom then .error .crash
    else join capacity (joined ++ written) rest

/-- Read records back one by one, and count those that differ. -/
def countMisread (log : Log δ) : List Written → Log δ × Except LogError Nat
  | [] => (log, .ok 0)
  | w :: rest =>
    match log.read w.offset w.payload.length with
    | (log, .error e) => (log, .error e)
    | (log, .ok back) =>
      let (log, bad) := countMisread log rest
      (log, bad.map fun bad => if back = w.payload then bad else bad + 1)

/-- The line for a stress test that went well. -/
def stressLine (records threads bytes : Nat) : String :=
  s!"stress ok: {records} records from {threads} threads, {bytes} bytes"

/-- Check what has been written on a log that starts at zero. -/
def checkWritten (threads : Nat) (written : List Written) (log : Log δ) :
    Log δ × Except Ending (List String) :=
  match tile 0 written with
  | .error gap => (log, .error (.failure (.untiled gap.expected gap.found)))
  | .ok bytes =>
    match countMisread log written with
    | (log, .error e) => (log, .error (.failure (.log e)))
    | (log, .ok bad) =>
      if bad = 0 then
        (log, .ok (stressLine written.length threads bytes :: log.totals.lines))
      else (log, .error (.failure (.misread bad written.length)))

/-- What the appenders of a stress test have written, in one list. -/
def joinAll (appenders : List Appender) : Except Ending (List Written) :=
  if allocationLimit < appenders.length * resultRoom then .error .crash
  else join 0 [] (appenders.map Appender.result)

/-- The work of a stress test, with the turns of its threads as `schedule` has them. -/
def stressWork (threads records size : Nat) (schedule : List Turn) (log : Log δ) :
    Log δ × Except Ending (List String) :=
  if roomToAppend threads records size then
    let w := (Workload.start log.machine (stressRecords threads records size)).run schedule
    let log : Log δ := { log with machine := w.machine }
    match joinAll w.appenders with
    | .error ending => (log, .error ending)
    | .ok written => checkWritten threads (byOffset written) log
  else (log, .error .crash)

/-- The stress test. -/
def stress (files : FileTree) (device : String) (settings : Settings)
    (threads records size : Nat) (schedule : List Turn) : Report :=
  withLog files device settings (stressWork threads records size schedule)

end BlockLog.Command
