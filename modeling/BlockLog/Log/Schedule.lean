import BlockLog.Log.Step

/-! The schedule that a log runs by when nobody asks for another one: the writer goes first for as
    long as it can, then the first client that can take a step, until nobody can. A held writer is
    one that may enter a device write but not perform it.

    The machine cannot go on for ever without new calls. Every step uses up some of a finite
    `potential`: a step that pushes turns bytes still to push into buffered bytes, a pop uses
    buffered bytes up, and every wait has its price paid in advance by the notification that ends
    it. The schedule takes no more steps than that. -/

namespace BlockLog

/-! ### What is left to do -/

/-- Prices of a machine with `threads` clients and blocks of `blockSize` bytes. -/
structure Prices where
  threads : Nat
  blockSize : Nat

namespace Prices

/-- The price of a buffered byte: a pop wakes every client and gives the writer its next block. -/
def buffered (p : Prices) : Nat := p.threads + 8

/-- The price of a byte still to be pushed: it is buffered, and the writer may have to be woken. -/
def pending (p : Prices) : Nat := p.buffered + 8

/-- The price of a block full of buffered bytes. -/
def block (p : Prices) : Nat := p.buffered * p.blockSize

/-- What a call still has to do when its flush is over. -/
def afterFlush : Purpose → Nat
  | .flush => 1
  | .read _ len => len + 3
  | .close => 10

/-- What a client still has to do. -/
def client (p : Prices) : ClientPoint → Nat
  | .idle _ => 0
  | .appendCalled data => p.pending * data.length + 4
  | .appendAdmitted data => p.pending * data.length + 3
  | .appendWaiting _ rest _ asleep => p.pending * rest.length + (if asleep then 1 else 2)
  | .flushCalled purpose => afterFlush purpose + 2 * p.block + 9
  | .flushAdmitted purpose => afterFlush purpose + 2 * p.block + 8
  | .flushWaiting purpose _ asleep => afterFlush purpose + p.block + (if asleep then 1 else 2)
  | .readCalled _ len => len + 2
  | .reading _ len got => len - got.length + 1
  | .stopping _ => 9
  | .stopped _ => 8
  | .joining _ => 3
  | .syncing _ _ => 2

/-- What the clients still have to do. -/
def clients (p : Prices) : List ClientPoint → Nat
  | [] => 0
  | point :: points => p.client point + p.clients points

/-- What the writer still has to do, the blocks in the ring apart. -/
def writer (p : Prices) : WriterPoint → Nat
  | .ready => p.threads + 8
  | .staged _ _ => p.threads + 7
  | .inFlight _ _ => p.threads + 6
  | .wrote _ _ _ => p.threads + 5
  | .asleep => p.threads + 4
  | .leaving _ => p.threads + 3
  | .announcing _ => p.threads + 2
  | .gone _ => 0

end Prices

namespace Machine

variable {δ : Type}

def prices (m : Machine δ) : Prices :=
  { threads := m.clients.length, blockSize := m.state.ring.blockSize }

/-- A bound on the steps that can be taken before a new call comes. -/
def potential (m : Machine δ) : Nat :=
  m.prices.buffered * m.state.ring.filled + m.prices.writer m.writer +
    m.prices.clients m.clients

/-! ### The schedule -/

variable [Device δ]

/-- The writer's next step, if it can take one and is not held before it. -/
def heldStep? (m : Machine δ) (held : Bool) : Option (Machine δ) :=
  if held && m.writer.isInFlight then none else m.writerStep?

/-- The next step of the first thread that can take one, the writer before the clients. -/
def next? (m : Machine δ) (held : Bool) : Option (Machine δ) :=
  match m.heldStep? held with
  | some next => some next
  | none => (List.range m.clients.length).findSome? m.clientStep?

/-- At most `steps` steps of the schedule. -/
def advance (held : Bool) : (steps : Nat) → Machine δ → Machine δ
  | 0, m => m
  | steps + 1, m =>
    match m.next? held with
    | some next => advance held steps next
    | none => m

/-- Run until nobody can take a step any more. -/
def settle (m : Machine δ) (held : Bool := false) : Machine δ := advance held m.potential m

/-- Give client `t` a call and run until nobody can take a step any more. The reply is there if the
    call has finished. -/
def call (m : Machine δ) (t : Nat) (request : Request) (held : Bool := false) :
    Machine δ × Option Reply :=
  match m.submit? t request with
  | some called => let settled := called.settle held; (settled, settled.reply? t)
  | none => (m, none)

end Machine

end BlockLog
