import BlockLog.Device
import BlockLog.Store

/-! A device in memory. It grows to the end of whatever is written, with zeros in the gaps, counts
    the blocks that went through, and can be told to fail its reads or its writes. A failing call
    changes nothing. A told failure comes before the check of alignment, and that before the check
    of the end.

    A device that is asked to grow past the largest allocation there is would take its caller down
    with it. That is not among the outcomes here: what is said about such a device is said of
    writes that end before. -/

namespace BlockLog.Device

/-- A device in memory. -/
structure Memory where
  blockSize : Nat
  contents : Store := .ofList []
  refusesWrites : Bool := false
  refusesReads : Bool := false
  writtenBlocks : Nat := 0
  readBlocks : Nat := 0
  deriving DecidableEq

namespace Memory

def length (d : Memory) : Nat := d.contents.size

def isEmpty (d : Memory) : Bool := d.length == 0

/-- Why a read of `len` bytes at `offset` would fail, if it would. -/
def readProblem? (d : Memory) (offset len : Nat) : Option DeviceError :=
  if d.refusesReads then some (.io .injectedRead)
  else match requireAligned offset len d.blockSize with
    | .error e => some e
    | .ok () =>
      if d.length < offset + len then some (.refused (.beyondEnd offset len d.length)) else none

/-- Read `len` bytes at `offset`. -/
def read (d : Memory) (offset len : Nat) : ReadResult Memory :=
  match d.readProblem? offset len with
  | some e => { device := d, bytes := [], outcome := .error e }
  | none =>
    { device := { d with readBlocks := d.readBlocks + len / d.blockSize }
      bytes := d.contents.slice offset len
      outcome := .ok () }

/-- Why a write of `len` bytes at `offset` would fail, if it would. -/
def writeProblem? (d : Memory) (offset len : Nat) : Option DeviceError :=
  if d.refusesWrites then some (.io .injectedWrite)
  else match requireAligned offset len d.blockSize with
    | .error e => some e
    | .ok () => none

/-- Write `bytes` at `offset`. -/
def write (d : Memory) (offset : Nat) (bytes : Bytes) : WriteResult Memory :=
  match d.writeProblem? offset bytes.length with
  | some e => { device := d, outcome := .failed e }
  | none =>
    { device := { d with
        contents := d.contents.overwrite offset bytes
        writtenBlocks := d.writtenBlocks + bytes.length / d.blockSize }
      outcome := .done }

/-- There is never anything to force out. -/
def sync (d : Memory) : SyncResult Memory := { device := d, outcome := .ok () }

instance : Device Memory where
  blockSize := Memory.blockSize
  read := read
  write := write
  sync := sync

end Memory

end BlockLog.Device
