import BlockLog.Log.Append
import BlockLog.Log.Close
import BlockLog.Log.Flush
import BlockLog.Log.Read
import BlockLog.Log.Writer

/-! One step of one thread, and runs. A thread that wants a lock that is held, sleeps, or has
    nothing to do cannot take a step; that is the answer `none`. Calls come from outside: a client
    that stands idle can be given one at any moment. A run is a list of such moves, and every list
    that goes through is a schedule. -/

namespace BlockLog

/-- One thing that can happen next: a client is given a call, or a thread takes a step. -/
inductive Move where
  | submit (client : Nat) (request : Request)
  | step (actor : Actor)
  deriving DecidableEq

/-- Where a call starts. -/
def Request.entry : Request → ClientPoint
  | .append data => .appendCalled data
  | .flush => .flushCalled .flush
  | .read offset len => .flushCalled (.read offset len)
  | .close => .flushCalled .close

namespace Machine

variable {δ : Type}

/-- Give an idle client a call. A close gives the handle up: it needs every client idle, and no call
    comes after it. -/
def submit? (m : Machine δ) (t : Nat) (request : Request) : Option (Machine δ) :=
  match m.clients[t]? with
  | some (.idle _) =>
    if m.closed then none
    else if request = .close then
      if m.clients.all ClientPoint.isIdle then
        some ({ m with closed := true }.setClient t request.entry)
      else none
    else some (m.setClient t request.entry)
  | _ => none

variable [Device δ]

/-- The next step of client `t`, if it can take one. -/
def clientStep? (m : Machine δ) (t : Nat) : Option (Machine δ) :=
  match m.clients[t]? with
  | none => none
  | some (.idle _) => none
  | some (.appendCalled data) => m.admitAppend? t data
  | some (.appendAdmitted data) => m.beginAppend? t data
  | some (.appendWaiting data rest offset asleep) => m.resumeAppend? t data rest offset asleep
  | some (.flushCalled purpose) => m.admitFlush? t purpose
  | some (.flushAdmitted purpose) => m.beginFlush? t purpose
  | some (.flushWaiting purpose pad asleep) => m.resumeFlush? t purpose pad asleep
  | some (.readCalled offset len) => m.beginRead? t offset len
  | some (.reading offset len got) => m.stepRead? t offset len got
  | some (.stopping flushed) => m.askToStop? t flushed
  | some (.stopped flushed) => some (m.announceStop t flushed)
  | some (.joining flushed) => m.join? t flushed
  | some (.syncing flushed joined) => m.lastSync? t flushed joined

/-- The next step of a thread, if it can take one. -/
def step? (m : Machine δ) : Actor → Option (Machine δ)
  | .writer => m.writerStep?
  | .client t => m.clientStep? t

/-- Make a move, if it can be made. -/
def move? (m : Machine δ) : Move → Option (Machine δ)
  | .submit t request => m.submit? t request
  | .step actor => m.step? actor

/-- Make the moves one after the other, if every one of them can be made. -/
def run? (m : Machine δ) : List Move → Option (Machine δ)
  | [] => some m
  | move :: rest => (m.move? move).bind fun next => run? next rest

/-- Make those of the moves that can be made when their turn comes. -/
def play (m : Machine δ) : List Move → Machine δ
  | [] => m
  | move :: rest => play ((m.move? move).getD m) rest

/-- The reply to the last call of client `t`, if it has none under way. -/
def reply? (m : Machine δ) (t : Nat) : Option Reply := m.clients[t]?.bind ClientPoint.reply?

end Machine

end BlockLog
