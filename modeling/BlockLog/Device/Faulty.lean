import BlockLog.Device

/-! A device with faults laid over it. Each kind of fault can be set and cleared at any time: writes
    that panic, a number of writes or reads after which all fail, and failing syncs. A panic comes
    before the limit, and the limit before whatever the device below says; a try under a limit uses
    one up whether or not it goes through below. -/

namespace BlockLog.Device

/-- The faults that are set. A limit of `some n` lets `n` more tries through. -/
structure Faults where
  panicWrites : Bool := false
  writeLimit : Option Nat := none
  readLimit : Option Nat := none
  failSync : Bool := false
  deriving DecidableEq

/-- The device `base` with faults laid over it. -/
structure Faulty (δ : Type) where
  base : δ
  faults : Faults := {}
  deriving DecidableEq

namespace Faulty

variable {δ : Type} [Device δ]

/-- Pass a write on to the device below. -/
def writeBelow (d : Faulty δ) (offset : Nat) (bytes : Bytes) : WriteResult (Faulty δ) :=
  let result := Device.write d.base offset bytes
  { device := { d with base := result.device }, outcome := result.outcome }

/-- Write `bytes` at `offset`, if no fault says otherwise. -/
def write (d : Faulty δ) (offset : Nat) (bytes : Bytes) : WriteResult (Faulty δ) :=
  if d.faults.panicWrites then { device := d, outcome := .panicked }
  else match d.faults.writeLimit with
    | none => d.writeBelow offset bytes
    | some 0 => { device := d, outcome := .failed (.refused .writeLimit) }
    | some (n + 1) =>
      writeBelow { d with faults := { d.faults with writeLimit := some n } } offset bytes

/-- Pass a read on to the device below. -/
def readBelow (d : Faulty δ) (offset len : Nat) : ReadResult (Faulty δ) :=
  let result := Device.read d.base offset len
  { device := { d with base := result.device }, bytes := result.bytes, outcome := result.outcome }

/-- Read `len` bytes at `offset`, if no fault says otherwise. -/
def read (d : Faulty δ) (offset len : Nat) : ReadResult (Faulty δ) :=
  match d.faults.readLimit with
  | none => d.readBelow offset len
  | some 0 => { device := d, bytes := [], outcome := .error (.refused .readLimit) }
  | some (n + 1) =>
    readBelow { d with faults := { d.faults with readLimit := some n } } offset len

/-- Sync the device below, if no fault says otherwise. -/
def sync (d : Faulty δ) : SyncResult (Faulty δ) :=
  if d.faults.failSync then { device := d, outcome := .error (.refused .injectedSync) }
  else
    let result := Device.sync d.base
    { device := { d with base := result.device }, outcome := result.outcome }

instance : Device (Faulty δ) where
  blockSize d := Device.blockSize d.base
  read := read
  write := write
  sync := sync

end Faulty

end BlockLog.Device
