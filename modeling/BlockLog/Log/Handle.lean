import BlockLog.Device.File
import BlockLog.Log.Schedule

/-! A log as its owner sees it: opened on a device, called one call after the other, and closed. The
    calls run on client 0 of the machine, under the machine's own schedule. While the log is held,
    its writer stops inside its next device write, and a call that needs the writer stays under way
    until the log is released. -/

namespace BlockLog

/-- An open log. -/
structure Log (δ : Type) where
  machine : Machine δ
  held : Bool := false

namespace Log

variable {δ : Type}

/-! ### What can be seen from outside -/

/-- The device as it is now. -/
def device (log : Log δ) : δ := log.machine.device

def blockSize (log : Log δ) : Nat := log.machine.state.ring.blockSize

/-- Bytes appended so far, on the device or buffered. -/
def length (log : Log δ) : Nat := log.machine.state.length

def isEmpty (log : Log δ) : Bool := log.length == 0

def isDegraded (log : Log δ) : Bool := log.machine.state.isDegraded

def writerPhase (log : Log δ) : WriterPhase := log.machine.state.phase

def totals (log : Log δ) : Totals := log.machine.state.totals

/-- The log with something done to its device behind its back. -/
def onDevice (log : Log δ) (f : δ → δ) : Log δ :=
  { log with machine := { log.machine with device := f log.machine.device } }

/-! ### Opening -/

variable [Device δ]

/-- Open a log on a device. -/
def open? (device : δ) (settings : Settings) : Except LogError (Log δ) :=
  (Machine.open? device settings 1).map fun machine => { machine := machine.settle }

/-- Open a log on the file at `path`. The tree comes back with the file in it if it was created,
    also when opening fails after that. -/
def openAt (t : FileTree) (path : String) (settings : Settings) :
    FileTree × Except LogError (Log Device.File) :=
  match settings.check with
  | .error e => (t, .error e)
  | .ok () =>
    match Device.File.openAt t path settings with
    | .error e => (t, .error (.device e))
    | .ok (tree, device) => (tree, open? device settings)

/-! ### Calls -/

/-- Call the log. There is no reply while the call is under way. -/
def call (log : Log δ) (request : Request) : Log δ × Option Reply :=
  let (machine, reply) := log.machine.call 0 request log.held
  ({ log with machine := machine }, reply)

/-- Call the log, which is not held, and wait for the reply. -/
def await (log : Log δ) (request : Request) : Log δ × Reply :=
  let (log, reply) := log.call request
  (log, reply.getD (.error .writerPanicked))

/-- Append bytes, and learn at what offset. -/
def append (log : Log δ) (data : Bytes) : Log δ × Except LogError Nat :=
  let (log, reply) := log.await (.append data)
  (log, reply.map Answer.start)

/-- Force everything appended onto the device. -/
def flush (log : Log δ) : Log δ × Except LogError Unit :=
  let (log, reply) := log.await .flush
  (log, reply.map fun _ => ())

/-- Read `len` bytes at `offset`. -/
def read (log : Log δ) (offset len : Nat) : Log δ × Except LogError Bytes :=
  let (log, reply) := log.await (.read offset len)
  (log, reply.map Answer.data)

/-- Close the log, and get its device back. -/
def close (log : Log δ) : δ × Except LogError Unit :=
  let (log, reply) := log.await .close
  (log.device, reply.map fun _ => ())

/-! ### Holding the writer -/

/-- From now on the writer stops inside its next device write. -/
def hold (log : Log δ) : Log δ := { log with held := true }

/-- Let the writer go on. The reply is that of the call that was under way, if one was. -/
def release (log : Log δ) : Log δ × Option Reply :=
  let pending := !(log.machine.clients.all ClientPoint.isIdle)
  let machine := log.machine.settle
  ({ machine := machine }, if pending then machine.reply? 0 else none)

end Log

end BlockLog
