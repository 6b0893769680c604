import BlockLog.Checksum
import BlockLog.FileTree
import BlockLog.Log.State

/-! What a command leaves behind: the files, the lines it has printed, and how it ended. -/

namespace BlockLog

/-- Why a command failed: a call on its log or its files did, or a check of its own. -/
inductive Failure where
  | log (cause : LogError)
  | checksumMismatch (wrote read : Checksum)
  | untiled (expected found : Nat)
  | misread (bad total : Nat)
  deriving DecidableEq

/-- A check that fails speaks of the device. -/
def Failure.message : Failure → String
  | .log cause => cause.message
  | .checksumMismatch wrote read =>
    "Device error: read-back checksum mismatch: wrote " ++ wrote.text ++ ", read " ++ read.text
  | .untiled expected found =>
    s!"Device error: record offsets do not tile the log: expected {expected}, found {found}"
  | .misread bad total => s!"Device error: {bad} of {total} records read back incorrectly"

/-- How a command ended. -/
inductive Ending where
  | success
  | failure (cause : Failure)
  /-- The command line made no sense. -/
  | misuse
  /-- The command came to a point from which nothing goes on: a division by zero, or a demand for
      more memory than there can be. -/
  | crash
  deriving DecidableEq

/-- The exit code that says so. -/
def Ending.exitCode : Ending → Nat
  | .success => 0
  | .failure _ => 1
  | .misuse => 2
  | .crash => 101

/-- The text of the error, if there was one. -/
def Ending.message? : Ending → Option String
  | .failure cause => some cause.message
  | _ => none

/-- A command that is over. -/
structure Report where
  files : FileTree
  lines : List String
  ending : Ending

/-- The totals of a log, a line each. -/
def Totals.lines (s : Totals) : List String :=
  [s!"  bytes appended: {s.appendedBytes}",
   s!"  blocks written: {s.writtenBlocks}",
   s!"  flushes:        {s.flushes}",
   s!"  cache hits:     {s.hits}",
   s!"  cache misses:   {s.misses}"]

end BlockLog
