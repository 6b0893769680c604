import BlockLog.Command.Report
import BlockLog.Device.File
import BlockLog.HexDump
import BlockLog.Region

/-! The dump: the bytes of the device around a range, as they are, without a log. The range is
    widened to whole blocks on both sides. The settings are not checked, so the block size may be
    anything; only zero, for which there are no whole blocks, ends in a crash. So does a range that
    is longer than any piece of memory, which is found before anything is read. -/

namespace BlockLog.Command

/-- A range of bytes, from `start` up to `stop`. -/
structure Window where
  start : Nat
  stop : Nat
  deriving DecidableEq

def Window.size (w : Window) : Nat := w.stop - w.start

/-- The least range of whole blocks around `len` bytes at `offset`. -/
def window (blockSize offset len : Nat) : Window :=
  { start := offset - offset % blockSize
    stop := (offset + len + (blockSize - 1)) / blockSize * blockSize }

/-- The dump of a window of the device. -/
def dumpRows (device : Device.File) (w : Window) : Except DeviceError (List (List Char)) :=
  let read := device.read w.start w.size
  read.outcome.map fun _ => HexDump.rows w.start read.bytes

/-- The dump of `len` bytes at `offset`. -/
def dump (files : FileTree) (device : String) (settings : Settings) (offset len : Nat) : Report :=
  match Device.File.openAt files device settings with
  | .error e => { files, lines := [], ending := .failure (.log (.device e)) }
  | .ok (files, device) =>
    let w := window device.blockSize offset len
    if device.blockSize = 0 ∨ allocationLimit < w.size then { files, lines := [], ending := .crash }
    else match dumpRows device w with
      | .error e => { files, lines := [], ending := .failure (.log (.device e)) }
      | .ok rows => { files, lines := rows.map String.ofList, ending := .success }

end BlockLog.Command
