import BlockLog.Proofs.Ring.Operation

/-! The ring is a bounded queue of bytes that can take back the block it gave out last. The queue below
    says so without any storage: it keeps what is buffered, the block popped last, and the offset.

        push b₁ … bₙ    queue ++ as many of b₁ … bₙ as there is room for
        dropOldest      the first block of the queue becomes the block popped last; offset goes up
        fillUp          queue ++ zeros up to the end of the block
        takeBack pad    an empty queue becomes the block popped last without its last `pad` bytes;
                        offset goes back

    That the ring can take a block back hangs on bytes that it has already let go of. They are still
    there for as long as the ring is empty: whatever is put in first goes behind them, and before the
    ring is empty again another block has been popped. -/

namespace BlockLog

/-- A bounded queue of bytes with the block popped last. -/
structure Fifo where
  blockSize : Nat
  capacity : Nat
  queue : Bytes := []
  popped : Option Bytes := none
  offset : Nat := 0

namespace Fifo

/-- The least number of bytes that completes the last block. -/
def padding (f : Fifo) : Nat := (f.blockSize - f.queue.length % f.blockSize) % f.blockSize

/-- A call, where it may be made, and its answer. -/
def perform? (f : Fifo) : Ring.Operation → Option (Fifo × Ring.Yield)
  | .push bytes =>
    let n := min bytes.length (f.capacity - f.queue.length)
    some ({ f with queue := f.queue ++ bytes.take n }, .count n)
  | .oldest =>
    if f.blockSize ≤ f.queue.length then some (f, .block (f.queue.take f.blockSize)) else none
  | .dropOldest =>
    if f.blockSize ≤ f.queue.length then
      some ({ f with
        queue := f.queue.drop f.blockSize
        popped := some (f.queue.take f.blockSize)
        offset := f.offset + f.blockSize }, .nothing)
    else none
  | .fillUp => some ({ f with queue := f.queue ++ Bytes.zeros f.padding }, .count f.padding)
  | .takeBack pad =>
    match f.popped with
    | some block =>
      if f.queue = [] ∧ 0 < pad ∧ pad < f.blockSize then
        some ({ f with
          queue := block.take (f.blockSize - pad)
          offset := f.offset - f.blockSize }, .nothing)
      else none
    | none => none

/-- The calls one after the other, if each of them may be made, and their answers. -/
def run? (f : Fifo) : List Ring.Operation → Option (Fifo × List Ring.Yield)
  | [] => some (f, [])
  | op :: ops => do
    let (next, yield) ← f.perform? op
    let (last, yields) ← next.run? ops
    some (last, yield :: yields)

end Fifo

namespace Ring

variable {r : Ring} {f : Fifo} {op : Operation} {popped : Bool}

/-- The call lets go of a block. -/
def Operation.pops : Operation → Bool
  | .dropOldest => true
  | _ => false

/-- When a call may be made, with nothing known of the past but whether a block has been popped. -/
def Permits (r : Ring) (popped : Bool) : Operation → Prop
  | .push _ | .fillUp => True
  | .oldest | .dropOldest => r.blockSize ≤ r.filled
  | .takeBack pad => r.filled = 0 ∧ popped = true ∧ 0 < pad ∧ pad < r.blockSize

instance : Decidable (r.Permits popped op) :=
  match op with
  | .push _ | .fillUp => .isTrue trivial
  | .oldest | .dropOldest => inferInstanceAs (Decidable (_ ≤ _))
  | .takeBack _ => inferInstanceAs (Decidable (_ ∧ _))

/-- Each of the calls may be made when its turn comes. -/
def Obeys (popped : Bool) (r : Ring) : List Operation → Prop
  | [] => True
  | op :: ops => r.Permits popped op ∧ Obeys (popped || op.pops) (r.perform op).1 ops

instance decidableObeys : ∀ (popped : Bool) (r : Ring) (ops : List Operation),
    Decidable (Obeys popped r ops)
  | _, _, [] => .isTrue trivial
  | popped, r, op :: ops =>
    have := decidableObeys (popped || op.pops) (r.perform op).1 ops
    inferInstanceAs (Decidable (_ ∧ _))

/-- What can be seen of a ring is as the queue says. -/
structure Mirrors (r : Ring) (f : Fifo) : Prop where
  filled_eq : r.filled = f.queue.length
  filled_le : r.filled ≤ r.capacity
  tail_aligned : r.blockSize ∣ r.tail
  offset_aligned : r.blockSize ∣ f.offset
  offset_eq : r.tailOffset = f.offset
  head_eq : r.head = (r.tail + r.filled) % r.capacity
  bytes_eq : ∀ i, i < r.filled → r.storage.toList[(r.tail + i) % r.capacity]? = f.queue[i]?

/-- The ring holds the queue, and while it is empty also the block popped last. -/
structure Holds (r : Ring) (f : Fifo) : Prop where
  valid : r.Valid
  blockSize_eq : f.blockSize = r.blockSize
  capacity_eq : f.capacity = r.capacity
  queue_eq : f.queue = r.queue
  offset_eq : f.offset = r.tailOffset
  popped_eq : ∀ block, f.popped = some block → r.filled = 0 →
    r.lastPopped = block ∧ r.blockSize ≤ r.tailOffset

namespace Holds

theorem length_queue (h : r.Holds f) : f.queue.length = r.filled := by
  rw [h.queue_eq, h.valid.length_queue]

theorem mirrors (h : r.Holds f) : r.Mirrors f where
  filled_eq := h.length_queue.symm
  filled_le := h.valid.filled_le
  tail_aligned := h.valid.tail_aligned
  offset_aligned := by
    rw [h.offset_eq]
    exact h.valid.offset_aligned
  offset_eq := h.offset_eq.symm
  head_eq := h.valid.head_eq
  bytes_eq i hi := by
    have hsize : r.storage.toList.length = r.capacity := h.valid.size_storage
    have hle := h.valid.filled_le
    rw [h.queue_eq, queue, List.getElem?_take_of_lt hi, window, List.getElem?_rotate (by omega), hsize,
      Nat.add_comm]

/-- As many zeros complete the last block of the one as of the other. -/
theorem padding_eq (h : r.Holds f) : f.padding = r.padding := by
  have hlt := Nat.mod_lt r.filled h.valid.blockSize_pos
  rw [Fifo.padding, h.length_queue, h.blockSize_eq, padding]
  split
  · rename_i hz
    rw [hz, Nat.sub_zero, Nat.mod_self]
  · exact Nat.mod_eq_of_lt (by omega)

/-! ### Every call does the same to both -/

theorem push (h : r.Holds f) (bytes : Bytes) : ∃ f', f.perform? (.push bytes) =
    some (f', .count (r.push bytes).2) ∧ (r.push bytes).1.Holds f' ∧ f'.popped = f.popped := by
  have hroom : f.capacity - f.queue.length = r.free := by
    rw [h.length_queue, h.capacity_eq]
    rfl
  have htake : bytes.take (min bytes.length r.free) = bytes.take r.free := take_push_snd r bytes
  refine ⟨{ f with queue := f.queue ++ bytes.take r.free }, ?_, ?_, rfl⟩
  · rw [Fifo.perform?, hroom, htake]
    rfl
  · exact
      { valid := h.valid.push bytes
        blockSize_eq := h.blockSize_eq.trans (push_blockSize h.valid bytes).symm
        capacity_eq := h.capacity_eq.trans (push_capacity h.valid bytes).symm
        queue_eq := by
          rw [queue_push h.valid]
          exact congrArg (· ++ _) h.queue_eq
        offset_eq := h.offset_eq.trans (push_tailOffset h.valid bytes).symm
        popped_eq := by
          -- a ring that is empty afterwards has taken nothing
          intro block hblock he
          rw [push_filled h.valid] at he
          have hnil : bytes.take r.free = [] := List.eq_nil_of_length_eq_zero (by omega)
          rw [push_eq_foldl h.valid, hnil]
          exact h.popped_eq block hblock (by omega) }

theorem dropOldest (h : r.Holds f) (hf : r.blockSize ≤ r.filled) : ∃ f', f.perform? .dropOldest =
    some (f', .nothing) ∧ r.dropOldest.Holds f' ∧ f'.popped.isSome = true := by
  refine ⟨_, if_pos (by rw [h.length_queue, h.blockSize_eq]; exact hf), ?_, rfl⟩
  exact
    { valid := h.valid.dropOldest hf
      blockSize_eq := h.blockSize_eq
      capacity_eq := h.capacity_eq
      queue_eq := by
        rw [queue_dropOldest h.valid hf]
        show f.queue.drop f.blockSize = _
        rw [h.queue_eq, h.blockSize_eq]
      offset_eq := by
        show f.offset + f.blockSize = r.tailOffset + r.blockSize
        rw [h.offset_eq, h.blockSize_eq]
      popped_eq := by
        intro block hblock _
        cases hblock
        refine ⟨?_, Nat.le_add_left ..⟩
        rw [lastPopped_dropOldest h.valid, oldest_eq_take_queue h.valid hf, h.queue_eq,
          h.blockSize_eq] }

theorem fillUp (h : r.Holds f) : ∃ f', f.perform? .fillUp = some (f', .count r.fillUp.2) ∧
    r.fillUp.1.Holds f' ∧ f'.popped = f.popped := by
  refine ⟨{ f with queue := f.queue ++ Bytes.zeros f.padding }, ?_, ?_, rfl⟩
  · rw [Fifo.perform?, fillUp_snd, ← h.padding_eq]
  · exact
      { valid := h.valid.fillUp
        blockSize_eq := h.blockSize_eq.trans (fillUp_blockSize r).symm
        capacity_eq := h.capacity_eq.trans (fillUp_capacity r).symm
        queue_eq := by
          rw [queue_fillUp h.valid, ← h.padding_eq]
          exact congrArg (· ++ _) h.queue_eq
        offset_eq := h.offset_eq.trans (fillUp_tailOffset r).symm
        popped_eq := by
          -- an empty ring has no block to complete
          intro block hblock he
          rw [fillUp_filled] at he
          have hnone : r.fillUp.1 = r := by
            rw [Ring.fillUp, if_pos (by omega)]
          rw [hnone]
          exact h.popped_eq block hblock (by omega) }

theorem takeBack (h : r.Holds f) {pad : Nat} (he : r.filled = 0) (hp : f.popped.isSome = true)
    (hpos : 0 < pad) (hlt : pad < r.blockSize) : ∃ f', f.perform? (.takeBack pad) =
      some (f', .nothing) ∧ (r.takeBack pad).Holds f' ∧ f'.popped = f.popped := by
  obtain ⟨block, hblock⟩ := Option.isSome_iff_exists.1 hp
  have hnil : f.queue = [] := List.eq_nil_of_length_eq_zero (h.length_queue.trans he)
  obtain ⟨hlast, hoffset⟩ := h.popped_eq block hblock he
  refine ⟨{ f with queue := block.take (f.blockSize - pad), offset := f.offset - f.blockSize },
    ?_, ?_, rfl⟩
  · simp only [Fifo.perform?, hblock]
    rw [if_pos ⟨hnil, hpos, h.blockSize_eq ▸ hlt⟩]
  · exact
      { valid := h.valid.takeBack he hlt
        blockSize_eq := h.blockSize_eq
        capacity_eq := h.capacity_eq
        queue_eq := by
          rw [queue_takeBack h.valid, hlast]
          show block.take (f.blockSize - pad) = _
          rw [h.blockSize_eq]
        offset_eq := by
          show f.offset - f.blockSize = r.tailOffset - r.blockSize
          rw [h.offset_eq, h.blockSize_eq]
        popped_eq := by
          intro _ _ he'
          replace he' : r.blockSize - pad = 0 := he'
          omega }

theorem perform (h : r.Holds f) (hp : r.Permits f.popped.isSome op) :
    ∃ f', f.perform? op = some (f', (r.perform op).2) ∧ (r.perform op).1.Holds f' ∧
      f'.popped.isSome = (f.popped.isSome || op.pops) := by
  cases op with
  | push bytes =>
    obtain ⟨f', hf', hholds, hpopped⟩ := h.push bytes
    exact ⟨f', hf', hholds, by rw [hpopped]; exact (Bool.or_false _).symm⟩
  | oldest =>
    refine ⟨f, ?_, h, (Bool.or_false _).symm⟩
    rw [Fifo.perform?, if_pos (by rw [h.length_queue, h.blockSize_eq]; exact hp), h.queue_eq,
      h.blockSize_eq, ← oldest_eq_take_queue h.valid hp]
    rfl
  | dropOldest =>
    obtain ⟨f', hf', hholds, hpopped⟩ := h.dropOldest hp
    exact ⟨f', hf', hholds, hpopped.trans (Bool.or_true _).symm⟩
  | fillUp =>
    obtain ⟨f', hf', hholds, hpopped⟩ := h.fillUp
    exact ⟨f', hf', hholds, by rw [hpopped]; exact (Bool.or_false _).symm⟩
  | takeBack pad =>
    obtain ⟨f', hf', hholds, hpopped⟩ := h.takeBack hp.1 hp.2.1 hp.2.2.1 hp.2.2.2
    exact ⟨f', hf', hholds, by rw [hpopped]; exact (Bool.or_false _).symm⟩

theorem run (ops : List Operation) : ∀ {r : Ring} {f : Fifo}, r.Holds f →
    Obeys f.popped.isSome r ops →
    ∃ f', f.run? ops = some (f', (r.run ops).2) ∧ (r.run ops).1.Holds f' := by
  induction ops with
  | nil => exact fun {r f} h _ => ⟨f, rfl, h⟩
  | cons op ops ih =>
    intro r f h hops
    obtain ⟨next, hnext, hholds, hpopped⟩ := h.perform hops.1
    obtain ⟨last, hlast, hholds'⟩ := ih hholds (hpopped ▸ hops.2)
    exact ⟨last, by simp [Fifo.run?, hnext, hlast, Ring.run], hholds'⟩

end Holds

/-! ### From a new ring on -/

/-- A ring can be made of any number of blocks of any size, as long as the memory can be asked for. -/
theorem new_isOk_iff (blockSize blocks : Nat) : (∃ r, new blockSize blocks = .ok r) ↔
    0 < blockSize ∧ 0 < blocks ∧ blockSize * blocks + blockSize ≤ allocationLimit := by
  have hlimit : allocationLimit < countLimit := by decide
  unfold new Region.allocate
  split
  · rename_i hz
    refine ⟨fun ⟨r, h⟩ => (by cases h), fun h => absurd hz (by omega)⟩
  · rename_i hpos
    split
    · refine ⟨fun ⟨r, h⟩ => (by cases h), fun h => (by omega)⟩
    · by_cases hfits : allocationLimit < blockSize * blocks + blockSize
      · rw [if_pos hfits]
        exact ⟨fun ⟨r, h⟩ => (by cases h), fun h => (by omega)⟩
      · rw [if_neg hfits]
        exact ⟨fun _ => (by omega), fun _ => ⟨_, rfl⟩⟩

theorem holds_new {blockSize blocks : Nat} (h : new blockSize blocks = .ok r) :
    r.Holds { blockSize := blockSize, capacity := blockSize * blocks } := by
  obtain ⟨hvalid, hblockSize, hfilled, hoffset, hcapacity⟩ := new_eq_ok h
  have hnil : r.queue = [] := List.eq_nil_of_length_eq_zero (hvalid.length_queue.trans hfilled)
  exact ⟨hvalid, hblockSize.symm, hcapacity.symm, hnil.symm, hoffset.symm, fun _ hb => by cases hb⟩

/-- Whatever calls are made on a new ring, each of them where it may be made, keep it in order. -/
theorem valid_run {blockSize blocks : Nat} {ops : List Operation} (h : new blockSize blocks = .ok r)
    (hops : Obeys false r ops) : (r.run ops).1.Valid := by
  obtain ⟨f, -, hholds⟩ := (holds_new h).run ops hops
  exact hholds.valid

/-- A ring is a bounded queue with one block of undo.

    Whatever calls are made on a new ring, each of them where it may be made, the queue can make them
    too and answers the same. Afterwards, and so after each of the calls, what is in the ring is the
    queue, wherever it lies in the storage: read around from the tail it is the queue byte for byte.
    Tail and offset stand at the start of a block, and the head behind the last byte. -/
theorem fifo_with_undo {blockSize blocks : Nat} {ops : List Operation}
    (h : new blockSize blocks = .ok r) (hops : Obeys false r ops) :
    ∃ f, ({ blockSize := blockSize, capacity := blockSize * blocks } : Fifo).run? ops =
      some (f, (r.run ops).2) ∧ (r.run ops).1.Mirrors f := by
  obtain ⟨f, hrun, hholds⟩ := (holds_new h).run ops hops
  exact ⟨f, hrun, hholds.mirrors⟩

/-- A block that is padded, popped and taken back stands at the end of the storage. Two more bytes go
    where the zeros were, and the next two around to the start. -/
theorem fifo_with_undo_wrapped : ∃ r f ops, new 4 2 = .ok r ∧ Obeys false r ops ∧
    ops = [.push [1, 2, 3, 4, 5, 6], .dropOldest, .fillUp, .oldest, .dropOldest, .takeBack 2,
      .push [7, 8, 9, 10], .oldest] ∧
    ({ blockSize := 4, capacity := 8 } : Fifo).run? ops =
      some (f, [.count 6, .nothing, .count 2, .block [5, 6, 0, 0], .nothing, .nothing, .count 4,
        .block [5, 6, 7, 8]]) ∧
    (r.run ops).1.Mirrors f ∧ f.queue = [5, 6, 7, 8, 9, 10] := by
  let ops : List Operation :=
    [.push [1, 2, 3, 4, 5, 6], .dropOldest, .fillUp, .oldest, .dropOldest, .takeBack 2,
      .push [7, 8, 9, 10], .oldest]
  have h : new 4 2 = .ok { storage := .zeros (4 * 2), blockSize := 4, blocks := 2 } := rfl
  have hops : Obeys false { storage := .zeros (4 * 2), blockSize := 4, blocks := 2 } ops := by
    decide +kernel
  obtain ⟨f, hrun, hmirrors⟩ := fifo_with_undo h hops
  refine ⟨_, f, ops, h, hops, rfl, hrun, hmirrors, ?_⟩
  cases hrun
  rfl

end Ring

end BlockLog
