import BlockLog.Proofs.Log.Consistency
import BlockLog.Proofs.Log.Exclusion

/-! The invariant of a log: locks are where the points say, ring, device, cache and writer are as the
    account says, and each client can rely on what its point stands for. A client that waits for
    space knows which of its bytes are in the log; one that waits for the writer knows the padding;
    one that reads knows that what it is after is on the device, and has read the log so far. -/

namespace BlockLog

/-- Everything pushed has been flushed, and the writer has nothing left to do. -/
structure Drained (s : LogState) (a : Account) : Prop where
  flushed : a.flushed = a.log.length
  sound : s.failure = none
  filled_lt : s.ring.filled < s.ring.blockSize

/-- What the flush of a close has come to. -/
structure Closing (s : LogState) (a : Account) (flushed : Except LogError Unit) : Prop where
  drained : flushed = .ok () → Drained s a
  failed : ∀ e, flushed = .error e → s.failure ≠ none ∧ ∃ reason, e = .degraded reason

/-- The client waits for a flush. -/
def ClientPoint.isFlushWaiting : ClientPoint → Bool
  | .flushWaiting .. => true
  | _ => false

namespace Machine

open LawfulDevice

variable {δ : Type}

/-- What a client can rely on. -/
def Serves (m : Machine δ) (a : Account) : ClientPoint → Prop
  | .appendWaiting data rest offset _ =>
    rest ≠ [] ∧ offset ≤ a.log.length ∧ a.log.drop offset ++ rest = data
  | .flushWaiting _ pad _ => m.state.pad = pad ∧ m.state.draining = true
  | .readCalled offset len =>
    offset + len ≤ a.flushed ∧ (m.clients.length = 1 → a.flushed = a.log.length)
  | .reading offset len got =>
    (offset + len ≤ a.flushed ∧ (m.clients.length = 1 → a.flushed = a.log.length)) ∧
      got.length ≤ len ∧ got = a.log.slice offset got.length
  | .stopping flushed | .stopped flushed | .joining flushed => Closing m.state a flushed
  | .syncing flushed joined =>
    Closing m.state a flushed ∧ joined = .ok () ∧ ∃ panicked, m.writer = .gone panicked
  | _ => True

section

variable {m m' : Machine δ} {a a' : Account} {p q : ClientPoint}

theorem serves_setClient (t : Nat) : Serves (m.setClient t p) a q ↔ Serves m a q := by
  cases q <;> simp [Serves, setClient]

/-- What a client can rely on stays so while others take steps, given what they may do beside it. -/
theorem Serves.mono {more : Bytes} (h : Serves m a p) (hw : ClientPoint.Woken p q)
    (hlog : a'.log = a.log ++ more) (hflushed : a.flushed ≤ a'.flushed)
    (hle : a.flushed ≤ a.log.length)
    (hheld : p.holdsAppend = true →
      more = [] ∧ m'.state.pad = m.state.pad ∧ m'.state.draining = m.state.draining)
    (halone : m'.clients.length = 1 →
      m.clients.length = 1 ∧ more = [] ∧ a'.flushed = a.flushed)
    (hclosing : p.isClosing = true →
      (∀ flushed, Closing m.state a flushed → Closing m'.state a' flushed) ∧
        ∀ panicked, m.writer = .gone panicked → m'.writer = .gone panicked) : Serves m' a' q := by
  have hread : ∀ {offset len : Nat},
      offset + len ≤ a.flushed ∧ (m.clients.length = 1 → a.flushed = a.log.length) →
      offset + len ≤ a'.flushed ∧ (m'.clients.length = 1 → a'.flushed = a'.log.length) := by
    rintro offset len ⟨hrange, hall⟩
    refine ⟨Nat.le_trans hrange hflushed, fun hone => ?_⟩
    obtain ⟨hone', hmore, heq⟩ := halone hone
    rw [heq, hlog, hmore, List.append_nil, hall hone']
  cases hw with
  | append =>
    obtain ⟨hne, hoffset, hdata⟩ := h
    obtain ⟨rfl, -, -⟩ := hheld rfl
    rw [List.append_nil] at hlog
    exact ⟨hne, hlog ▸ hoffset, hlog ▸ hdata⟩
  | flush =>
    obtain ⟨-, hpad, hdrain⟩ := hheld rfl
    exact ⟨hpad.trans h.1, hdrain.trans h.2⟩
  | same =>
    cases p with
    | appendWaiting data rest offset asleep =>
      obtain ⟨hne, hoffset, hdata⟩ := h
      obtain ⟨rfl, -, -⟩ := hheld rfl
      rw [List.append_nil] at hlog
      exact ⟨hne, hlog ▸ hoffset, hlog ▸ hdata⟩
    | flushWaiting purpose pad asleep =>
      obtain ⟨-, hpad, hdrain⟩ := hheld rfl
      exact ⟨hpad.trans h.1, hdrain.trans h.2⟩
    | readCalled offset len => exact hread h
    | reading offset len got =>
      obtain ⟨hrange, hgot, hslice⟩ := h
      refine ⟨hread hrange, hgot, ?_⟩
      rw [hlog, Bytes.slice_append_of_le (by have := hrange.1; omega)]
      exact hslice
    | stopping | stopped | joining => exact (hclosing rfl).1 _ h
    | syncing =>
      obtain ⟨hflush, hjoined, panicked, hgone⟩ := h
      exact ⟨(hclosing rfl).1 _ hflush, hjoined, panicked, (hclosing rfl).2 panicked hgone⟩
    | _ => trivial

/-! ### The end of a flush -/

theorem serves_next_error (purpose : Purpose) {reason : Degradation}
    (hfail : m.state.failure = some reason) :
    Serves m a (purpose.next (.error (.degraded reason))) := by
  cases purpose with
  | flush | read => trivial
  | close =>
    refine ⟨fun hok => (by cases hok), fun e he => ⟨by rw [hfail]; simp, reason, ?_⟩⟩
    exact (Except.error.inj he).symm

theorem serves_next_ok (purpose : Purpose) {size : Nat} (hsize : size = a.log.length)
    (hdrained : Drained m.state a) : Serves m a (purpose.next (.ok size)) := by
  cases purpose with
  | flush => trivial
  | read offset len =>
    unfold Purpose.next
    dsimp only
    split
    · trivial
    · rename_i hle
      refine ⟨?_, fun _ => hdrained.flushed⟩
      rw [hdrained.flushed]
      omega
  | close => exact ⟨fun _ => hdrained, fun e he => by cases he⟩

end

/-! ### One block of a read -/

/-- A segment lies inside its block and inside the range of the read, and has a byte unless the read is
    over. -/
theorem length_append_segment {block got : Bytes} {blockSize len : Nat} (offset : Nat)
    (hpos : 0 < blockSize) (hlen : block.length = blockSize) (hgot : got.length ≤ len) :
    (got ++ block.slice ((offset + got.length) % blockSize)
        (segment blockSize offset len got.length).count).length =
      got.length + (segment blockSize offset len got.length).count ∧
    got.length + (segment blockSize offset len got.length).count ≤ len ∧
    (got.length < len → 0 < (segment blockSize offset len got.length).count) := by
  have hwithin := Nat.mod_lt (offset + got.length) hpos
  have hcount : (segment blockSize offset len got.length).count =
      min (blockSize - (offset + got.length) % blockSize) (len - got.length) := rfl
  rw [List.length_append, Bytes.length_slice]
  omega

/-- A segment of a block that has the bytes of the log goes on where the read has come to. -/
theorem append_segment_eq {block log got : Bytes} {blockSize offset len stop : Nat}
    (hpos : 0 < blockSize) (hlen : block.length = blockSize) (hstop : offset + len ≤ stop)
    (hagrees : ∀ i, i < blockSize → (offset + got.length) / blockSize * blockSize + i < stop →
      block[i]? = log[(offset + got.length) / blockSize * blockSize + i]?)
    (hgot : got.length ≤ len) (hslice : got = log.slice offset got.length) :
    got ++ block.slice ((offset + got.length) % blockSize)
        (segment blockSize offset len got.length).count =
      log.slice offset (got ++ block.slice ((offset + got.length) % blockSize)
        (segment blockSize offset len got.length).count).length := by
  obtain ⟨hlength, hle, -⟩ := length_append_segment offset hpos hlen hgot
  have hwithin := Nat.mod_lt (offset + got.length) hpos
  have hcount : (segment blockSize offset len got.length).count =
      min (blockSize - (offset + got.length) % blockSize) (len - got.length) := rfl
  have hsplit := Nat.div_add_mod (offset + got.length) blockSize
  rw [Nat.mul_comm] at hsplit
  rw [hlength, ← Bytes.slice_append_slice, ← hslice]
  congr 1
  apply List.ext_getElem?
  intro i
  rw [Bytes.getElem?_slice, Bytes.getElem?_slice]
  split
  · rw [hagrees _ (by omega) (by omega)]
    congr 1
    omega
  · rfl

/-! ### All of it -/

variable [Device δ] [LawfulDevice δ]

/-- The invariant of a log. -/
structure Inv (initial : Bytes) (m : Machine δ) (a : Account) : Prop where
  exclusive : m.Exclusive
  consistent : Consistent initial m a
  serves : ∀ (t : Nat) (p : ClientPoint), m.clients[t]? = some p → Serves m a p
  flushing : m.state.draining = true →
    ∃ (t : Nat) (p : ClientPoint), m.clients[t]? = some p ∧ p.isFlushWaiting = true

namespace Inv

variable {initial : Bytes} {m : Machine δ} {a : Account} {t : Nat} {p : ClientPoint}

theorem flushed_le_length (h : Inv initial m a) : a.flushed ≤ a.log.length :=
  Nat.le_trans h.consistent.flushed_le h.consistent.lands.durable_le

/-- Whoever else holds the append lock knows that no flush is under way. -/
theorem draining_eq_false (h : Inv initial m a) (hp : m.clients[t]? = some p)
    (hheld : p.holdsAppend = true) (hne : p.isFlushWaiting = false) : m.state.draining = false := by
  by_contra hd
  obtain ⟨u, q, hq, hwaits⟩ := h.flushing (Bool.not_eq_false _ ▸ hd)
  have hheld' : q.holdsAppend = true := by
    cases q with
    | flushWaiting => rfl
    | _ => cases hwaits
  have hut := h.exclusive.append_unique hp hq hheld hheld'
  rw [hut, hp] at hq
  cases hq
  rw [hwaits] at hne
  cases hne

/-- What an append is about to push is what is not in the log of its bytes. -/
theorem feeds (h : Inv initial m a) (hp : m.clients[t]? = some p) {data rest : Bytes} {offset : Nat}
    (hf : Feeds m p data rest offset) :
    p.holdsAppend = true ∧ m.state.draining = false ∧ offset ≤ a.log.length ∧
      a.log.drop offset ++ rest = data := by
  cases hf with
  | first sound =>
    have hd := h.draining_eq_false hp rfl rfl
    have hend := h.consistent.buffers.endOffset_eq hd sound
    exact ⟨rfl, hd, Nat.le_of_eq hend, by rw [hend, List.drop_length, List.nil_append]⟩
  | again =>
    obtain ⟨-, hoffset, hdata⟩ := h.serves t _ hp
    exact ⟨rfl, h.draining_eq_false hp rfl rfl, hoffset, hdata⟩

theorem drained (h : Inv initial m a) (hsound : m.state.failure = none)
    (he : m.state.ring.filled = 0) : Drained m.state { a with flushed := a.log.length } where
  flushed := rfl
  sound := hsound
  filled_lt := by
    have := h.consistent.buffers.ring.blockSize_pos
    omega

end Inv

end Machine

end BlockLog
