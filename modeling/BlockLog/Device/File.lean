import BlockLog.Settings
import BlockLog.Device
import BlockLog.FileTree
import BlockLog.Store

/-! A device over a regular file. Reads and writes are checked for alignment first; then a transfer
    of no bytes does nothing, one that reaches past the largest offset there is fails, and one that
    reads past the end of the file brings what there is and fails. A write past the end fills the
    gap with zeros. The block size is the configured one, unchecked, or else the one that the file
    system prefers. -/

namespace BlockLog.Device

/-- An open file: the path it was opened by, where it is, and what it contains. -/
structure File where
  path : String
  location : Location
  blockSize : Nat
  contents : Store
  deriving DecidableEq

namespace File

/-- The block size that the file system prefers. -/
def preferredBlockSize : Nat := 4096

/-- Transfers end before this offset. -/
def offsetLimit : Nat := 1 <<< 63

/-- Open the file at `path`. The tree comes back with the file in it if it was created. -/
def openAt (t : FileTree) (path : String) (settings : Settings) :
    Except DeviceError (FileTree × File) :=
  match t.openFile path settings.create with
  | .error cause => .error (.refused (.cannotOpen path cause))
  | .ok (tree, location, .file contents) =>
    .ok (tree,
      { path := path
        location := location
        blockSize := settings.blockSize.getD preferredBlockSize
        contents := .ofList contents })
  | .ok _ => .error (.refused (.unsuitable path))

/-- The tree with what the device now contains. -/
def saveTo (d : File) (t : FileTree) : FileTree := t.put d.location (.file d.contents.toList)

/-- The file cut down or filled up with zeros to `len` bytes, behind the device's back. -/
def truncate (d : File) (len : Nat) : File :=
  { d with contents := d.contents.resize len }

/-- Why a transfer of `len` bytes at `offset` cannot even start, if it cannot. -/
def transferProblem? (d : File) (offset len : Nat) : Option DeviceError :=
  match requireAligned offset len d.blockSize with
  | .error e => some e
  | .ok () =>
    if len ≠ 0 ∧ offsetLimit ≤ offset + len then some (.io (.os .invalidArgument)) else none

/-- Read `len` bytes at `offset`. -/
def read (d : File) (offset len : Nat) : ReadResult File :=
  match d.transferProblem? offset len with
  | some e => { device := d, bytes := [], outcome := .error e }
  | none =>
    if len ≠ 0 ∧ d.contents.size < offset + len then
      { device := d, bytes := d.contents.slice offset len, outcome := .error (.io .shortRead) }
    else { device := d, bytes := d.contents.slice offset len, outcome := .ok () }

/-- Write `bytes` at `offset`. -/
def write (d : File) (offset : Nat) (bytes : Bytes) : WriteResult File :=
  match d.transferProblem? offset bytes.length with
  | some e => { device := d, outcome := .failed e }
  | none =>
    if bytes = [] then { device := d, outcome := .done }
    else
      { device := { d with contents := d.contents.overwrite offset bytes }, outcome := .done }

/-- Everything written is in the file already. -/
def sync (d : File) : SyncResult File := { device := d, outcome := .ok () }

instance : Device File where
  blockSize := File.blockSize
  read := read
  write := write
  sync := sync

end File

end BlockLog.Device
