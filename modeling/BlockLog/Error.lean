/-! What can go wrong, by cause. A device call fails with a `DeviceError`; the log turns the first
    failed background write into a lasting `Degradation` and answers every later call with it; all
    that a call on the log can report is a `LogError`. The wording is in the `message` functions and
    nowhere else. -/

namespace BlockLog

/-- Why the operating system refused to open or transfer a file. -/
inductive OsError where
  | noSuchFile
  | notADirectory
  | isADirectory
  | nameTooLong
  | invalidArgument
  | nulInName
  deriving DecidableEq

/-- The operating system's text for a refusal, with its error number where it has one. -/
def OsError.message : OsError → String
  | .noSuchFile => "No such file or directory (os error 2)"
  | .notADirectory => "Not a directory (os error 20)"
  | .isADirectory => "Is a directory (os error 21)"
  | .nameTooLong => "File name too long (os error 36)"
  | .invalidArgument => "Invalid argument (os error 22)"
  | .nulInName => "file name contained an unexpected NUL byte"

/-- A transfer that broke off. -/
inductive IoError where
  | os (cause : OsError)
  | injectedRead
  | injectedWrite
  | shortRead
  deriving DecidableEq

def IoError.message : IoError → String
  | .os cause => cause.message
  | .injectedRead => "injected read failure"
  | .injectedWrite => "injected write failure"
  | .shortRead => "failed to fill whole buffer"

/-- A request that a device turned down, or a device that cannot be used at all. -/
inductive Refusal where
  | cannotOpen (path : String) (cause : OsError)
  | unsuitable (path : String)
  | zeroBlockSize
  | beyondEnd (offset len size : Nat)
  | writeLimit
  | readLimit
  | injectedSync
  | custom (text : String)
  deriving DecidableEq

def Refusal.message : Refusal → String
  | .cannotOpen path cause => s!"unable to open {path}: " ++ cause.message
  | .unsuitable path => s!"{path} is not a regular file or block device"
  | .zeroBlockSize => "device reported a zero block size"
  | .beyondEnd offset len size =>
    s!"read beyond device end: offset={offset} len={len} size={size}"
  | .writeLimit => "write limit reached"
  | .readLimit => "read limit reached"
  | .injectedSync => "injected sync failure"
  | .custom text => text

/-- Why a device call failed. -/
inductive DeviceError where
  | io (cause : IoError)
  | refused (cause : Refusal)
  | misaligned (offset len blockSize : Nat)
  deriving DecidableEq

def DeviceError.message : DeviceError → String
  | .io cause => "IO error: " ++ cause.message
  | .refused cause => "Device error: " ++ cause.message
  | .misaligned offset len blockSize =>
    s!"Misaligned device access: offset={offset} len={len} block_size={blockSize}"

/-- Why a log has stopped for good. -/
inductive Degradation where
  | writeFailed (block : Nat) (cause : DeviceError)
  | writerPanicked
  deriving DecidableEq

def Degradation.message : Degradation → String
  | .writeFailed block cause => s!"write of block {block} failed: " ++ cause.message
  | .writerPanicked => "background writer panicked"

/-- What was being allocated when memory ran out. -/
inductive Allocation where
  | region
  | writeBuffer
  | readCache
  deriving DecidableEq

def Allocation.message : Allocation → String
  | .region => "aligned buffer"
  | .writeBuffer => "write buffer"
  | .readCache => "read cache"

/-- A setting that no log can be opened with. -/
inductive SettingsError where
  | noWriteBuffer
  | noReadCache
  | badBlockSize (size : Nat)
  | emptyRing (blocks blockSize : Nat)
  | noCacheSlot
  deriving DecidableEq

def SettingsError.message : SettingsError → String
  | .noWriteBuffer => "write_buffer_blocks must be at least 1"
  | .noReadCache => "read_cache_blocks must be at least 1"
  | .badBlockSize size => s!"invalid block_size={size} (must be a power of two)"
  | .emptyRing blocks blockSize =>
    s!"write buffer needs a positive block size and block count (got {blocks}x{blockSize})"
  | .noCacheSlot => "read cache needs at least one slot"

/-- Why a call on a log, or opening one, failed. -/
inductive LogError where
  | device (cause : DeviceError)
  | readPastEnd (offset len size : Nat)
  | degraded (reason : Degradation)
  | outOfMemory (what : Allocation)
  | settings (problem : SettingsError)
  | writerPanicked
  deriving DecidableEq

def LogError.message : LogError → String
  | .device cause => cause.message
  | .readPastEnd offset len size =>
    s!"Read beyond end of log: offset={offset} len={len} size={size}"
  | .degraded reason => "Log is degraded: " ++ reason.message
  | .outOfMemory what => "Out of memory allocating " ++ what.message
  | .settings problem => "Configuration error: " ++ problem.message
  | .writerPanicked => "Background writer panicked"

end BlockLog
