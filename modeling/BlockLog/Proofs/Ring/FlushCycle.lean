import BlockLog.Proofs.Ring.Fifo

/-! A flush leaves no trace in the ring. It completes the last block with zeros, lets every block go and
    takes the last one back; a ring that has only let its whole blocks go ends up in the same place
    with the same bytes, and nobody can tell the two apart by what they hand out later.

                        ┌───────┬───────┬───┐
        buffered        │ block │ block │ x │
                        └───────┴───────┴───┘
                        ┌───────┬───────┬───┬───┐                               ┌───┐
        with a flush    │ block │ block │ x │ 0 │ ── pop, pop, pop, take back ─▶│ x │ 0
                        └───────┴───────┴───┴───┘                               └───┘
                                                                                ┌───┐
        without                                   ── pop, pop ─────────────────▶│ x │
                                                                                └───┘

    The storages differ where the zeros were, but that is free space in both rings. -/

namespace BlockLog.Ring

variable {r r' r'' : Ring} {more : Bytes}

/-- Pop `n` blocks, one after the other. What is handed out is each block with its offset. -/
def dropBlocks : Nat → Ring → List (Nat × Bytes) × Ring
  | 0, r => ([], r)
  | n + 1, r =>
    ((r.tailOffset, r.oldest) :: (dropBlocks n r.dropOldest).1, (dropBlocks n r.dropOldest).2)

/-- Pop every whole block. -/
def drain (r : Ring) : List (Nat × Bytes) × Ring := dropBlocks (r.filled / r.blockSize) r

/-- Complete the last block, pop every block, and take back what was added. -/
def flushCycle (r : Ring) : List (Nat × Bytes) × Ring :=
  let drained := r.fillUp.1.drain
  (drained.1, if 0 < r.fillUp.2 then drained.2.takeBack r.fillUp.2 else drained.2)

/-- What is done with a ring. -/
inductive Use where
  | push (bytes : Bytes)
  | pop
  | flush

/-- What is seen of a ring from outside: how many bytes it took, or the blocks that it handed out, each
    with its offset. -/
inductive Seen where
  | took (n : Nat)
  | handed (blocks : List (Nat × Bytes))
  deriving DecidableEq

/-- Do something with a ring, and see what comes of it. Nothing is popped where no whole block is. -/
def use? (r : Ring) : Use → Option (Ring × Seen)
  | .push bytes => some ((r.push bytes).1, .took (r.push bytes).2)
  | .pop => if r.blockReady then some (r.dropOldest, .handed [(r.tailOffset, r.oldest)]) else none
  | .flush => some (r.flushCycle.2, .handed r.flushCycle.1)

/-- What is seen while one thing is done after the other, if all of them can be done. -/
def seen? (r : Ring) : List Use → Option (List Seen)
  | [] => some []
  | u :: us => do
    let (next, seen) ← r.use? u
    let later ← next.seen? us
    some (seen :: later)

/-- The second ring stands in the same place as the first, and has bytes behind those of the first. -/
structure Continues (r r' : Ring) (more : Bytes) : Prop where
  valid : r.Valid
  valid' : r'.Valid
  blockSize_eq : r'.blockSize = r.blockSize
  capacity_eq : r'.capacity = r.capacity
  tail_eq : r'.tail = r.tail
  offset_eq : r'.tailOffset = r.tailOffset
  queue_eq : r'.queue = r.queue ++ more

/-- The rings are the same but for what lies in their free space. -/
abbrev Alike (r r' : Ring) : Prop := Continues r r' []

/-! ### Popping blocks -/

namespace Continues

theorem refl (h : r.Valid) : Alike r r := ⟨h, h, rfl, rfl, rfl, rfl, (List.append_nil _).symm⟩

theorem filled_eq (h : Continues r r' more) : r'.filled = r.filled + more.length := by
  rw [← h.valid'.length_queue, h.queue_eq, List.length_append, h.valid.length_queue]

theorem fillUp (h : r.Valid) : Continues r r.fillUp.1 (Bytes.zeros r.padding) :=
  ⟨h, h.fillUp, fillUp_blockSize r, fillUp_capacity r, fillUp_tail r, fillUp_tailOffset r,
    queue_fillUp h⟩

/-- As long as the first ring has a whole block, both pop the same one. -/
theorem dropOldest (h : Continues r r' more) (hf : r.blockSize ≤ r.filled) :
    r'.oldest = r.oldest ∧ Continues r.dropOldest r'.dropOldest more := by
  obtain ⟨hf', holdest⟩ := oldest_eq_of_append h.valid h.valid' h.blockSize_eq hf h.queue_eq
  rw [← h.blockSize_eq] at hf'
  refine ⟨holdest, h.valid.dropOldest hf, h.valid'.dropOldest hf', h.blockSize_eq, h.capacity_eq,
    ?_, ?_, ?_⟩
  · show (r'.tail + r'.blockSize) % r'.capacity = (r.tail + r.blockSize) % r.capacity
    rw [h.tail_eq, h.blockSize_eq, h.capacity_eq]
  · show r'.tailOffset + r'.blockSize = r.tailOffset + r.blockSize
    rw [h.offset_eq, h.blockSize_eq]
  · rw [queue_dropOldest h.valid' hf', queue_dropOldest h.valid hf, h.queue_eq, h.blockSize_eq,
      List.drop_append_of_le_length (by rw [h.valid.length_queue]; exact hf)]

theorem dropBlocks (n : Nat) : ∀ {r r' : Ring}, Continues r r' more → n * r.blockSize ≤ r.filled →
    (r'.dropBlocks n).1 = (r.dropBlocks n).1 ∧
      Continues (r.dropBlocks n).2 (r'.dropBlocks n).2 more := by
  induction n with
  | zero => exact fun h _ => ⟨rfl, h⟩
  | succ n ih =>
    intro r r' h hn
    rw [Nat.succ_mul] at hn
    obtain ⟨holdest, hdrop⟩ := h.dropOldest (by omega)
    have hleft : n * r.dropOldest.blockSize ≤ r.dropOldest.filled := by
      show n * r.blockSize ≤ r.filled - r.blockSize
      omega
    obtain ⟨hblocks, hrest⟩ := ih hdrop hleft
    refine ⟨?_, hrest⟩
    show (r'.tailOffset, r'.oldest) :: (r'.dropOldest.dropBlocks n).1 = _ :: _
    rw [hblocks, holdest, h.offset_eq]

end Continues

theorem dropBlocks_frame (n : Nat) : ∀ (r : Ring), (r.dropBlocks n).2.blockSize = r.blockSize ∧
    (r.dropBlocks n).2.capacity = r.capacity ∧
    (r.dropBlocks n).2.filled = r.filled - n * r.blockSize ∧
    (r.dropBlocks n).2.tailOffset = r.tailOffset + n * r.blockSize := by
  induction n with
  | zero => exact fun r => ⟨rfl, rfl, by simp [dropBlocks], by simp [dropBlocks]⟩
  | succ n ih =>
    intro r
    obtain ⟨hblockSize, hcapacity, hfilled, hoffset⟩ := ih r.dropOldest
    refine ⟨hblockSize, hcapacity, hfilled.trans ?_, hoffset.trans ?_⟩
    · show r.filled - r.blockSize - n * r.blockSize = _
      rw [Nat.succ_mul]
      omega
    · show r.tailOffset + r.blockSize + n * r.blockSize = _
      rw [Nat.succ_mul]
      omega

/-- The last of several pops. -/
theorem dropBlocks_succ (n : Nat) : ∀ (r : Ring), r.dropBlocks (n + 1) =
    ((r.dropBlocks n).1 ++ [((r.dropBlocks n).2.tailOffset, (r.dropBlocks n).2.oldest)],
      (r.dropBlocks n).2.dropOldest) := by
  induction n with
  | zero => exact fun r => rfl
  | succ n ih =>
    intro r
    rw [dropBlocks, ih r.dropOldest]
    rfl

theorem Valid.dropBlocks (h : r.Valid) {n : Nat} (hn : n * r.blockSize ≤ r.filled) :
    (r.dropBlocks n).2.Valid := ((Continues.refl h).dropBlocks n hn).2.valid

/-- What is handed out and what is left are together what was buffered. -/
theorem flatten_dropBlocks (n : Nat) : ∀ {r : Ring}, r.Valid → n * r.blockSize ≤ r.filled →
    ((r.dropBlocks n).1.map Prod.snd).flatten ++ (r.dropBlocks n).2.queue = r.queue := by
  induction n with
  | zero => exact fun _ _ => rfl
  | succ n ih =>
    intro r h hn
    rw [Nat.succ_mul] at hn
    have hf : r.blockSize ≤ r.filled := by omega
    have hleft : n * r.dropOldest.blockSize ≤ r.dropOldest.filled := by
      show n * r.blockSize ≤ r.filled - r.blockSize
      omega
    rw [dropBlocks, List.map_cons, List.flatten_cons, List.append_assoc, ih (h.dropOldest hf) hleft,
      queue_dropOldest h hf, oldest_eq_take_queue h hf, List.take_append_drop]

/-- Less than a block is left when every whole block has been popped. -/
theorem drain_filled (r : Ring) : r.drain.2.filled = r.filled % r.blockSize := by
  have hsplit := Nat.div_add_mod' r.filled r.blockSize
  rw [drain, (dropBlocks_frame _ r).2.2.1]
  omega

theorem Valid.drain (h : r.Valid) : r.drain.2.Valid := h.dropBlocks (Nat.div_mul_le_self ..)

/-- Rings that are alike hand out the same when every whole block is popped. -/
theorem Continues.drain (h : Alike r r') : r'.drain.1 = r.drain.1 ∧ Alike r.drain.2 r'.drain.2 := by
  have hfilled : r'.filled = r.filled := h.filled_eq
  rw [Ring.drain, Ring.drain, hfilled, h.blockSize_eq]
  exact h.dropBlocks _ (Nat.div_mul_le_self ..)

/-! ### A flush -/

/-- There is nothing to complete, and nothing to take back. -/
theorem flushCycle_of_whole (h : r.filled % r.blockSize = 0) : r.flushCycle = r.drain := by
  have hfill : r.fillUp = (r, 0) := if_pos (if_pos h)
  rw [flushCycle, hfill]
  rfl

/-- Taking back the block that has just been popped goes back to where it began. -/
theorem tail_takeBack_dropOldest (h : r.Valid) (pad : Nat) :
    (r.dropOldest.takeBack pad).tail = r.tail := by
  have hlt := h.tail_lt
  have hle := h.blockSize_le_capacity
  show ((r.tail + r.blockSize) % r.capacity + r.capacity - r.blockSize) % r.capacity = r.tail
  rw [Nat.add_sub_assoc hle, Nat.mod_add_mod,
    show r.tail + r.blockSize + (r.capacity - r.blockSize) = r.tail + r.capacity by omega,
    Nat.add_mod_right, Nat.mod_eq_of_lt hlt]

/-- A ring whose only block ends with padding, and the same ring without the padding: once the block
    has been popped and taken back, the two are alike. -/
theorem Continues.takeBack {pad : Nat} (h : Continues r r' (Bytes.zeros pad)) (hpad : pad < r.blockSize)
    (hfull : r'.filled = r.blockSize) : r'.oldest = r.queue ++ Bytes.zeros pad ∧
      Alike r (r'.dropOldest.takeBack pad) := by
  have hv := h.valid'
  have hbs := h.blockSize_eq
  have hlen := h.valid.length_queue
  have hfilled := h.filled_eq
  rw [Bytes.length_zeros] at hfilled
  have holdest : r'.oldest = r.queue ++ Bytes.zeros pad := by
    rw [oldest_eq_take_queue hv (by omega), h.queue_eq, List.take_of_length_le]
    rw [List.length_append, Bytes.length_zeros]
    omega
  have hempty : r'.dropOldest.filled = 0 := by
    show r'.filled - r'.blockSize = 0
    omega
  have hdrop := hv.dropOldest (by omega)
  refine ⟨holdest, h.valid, hdrop.takeBack hempty (by rw [← hbs] at hpad; exact hpad), hbs,
    h.capacity_eq, (tail_takeBack_dropOldest hv pad).trans h.tail_eq, ?_, ?_⟩
  · show r'.tailOffset + r'.blockSize - r'.blockSize = r.tailOffset
    rw [Nat.add_sub_cancel, h.offset_eq]
  · rw [queue_takeBack hdrop, lastPopped_dropOldest hv, holdest, List.append_nil]
    refine List.take_left' ?_
    show r.queue.length = r'.blockSize - pad
    omega

/-- A flush that has a block to complete pops that one too, and comes back to it. -/
theorem flushCycle_of_partial (h : r.Valid) (hpart : r.filled % r.blockSize ≠ 0) :
    r.flushCycle.1 = r.drain.1 ++
      [(r.drain.2.tailOffset, r.drain.2.queue ++ Bytes.zeros r.padding)] ∧
    Alike r.drain.2 r.flushCycle.2 := by
  have hlt := Nat.mod_lt r.filled h.blockSize_pos
  have hsplit := Nat.div_add_mod' r.filled r.blockSize
  have hpad : r.padding = r.blockSize - r.filled % r.blockSize := if_neg hpart
  have hblocks : r.fillUp.1.drain = r.fillUp.1.dropBlocks (r.filled / r.blockSize + 1) := by
    have hcount : r.filled + r.padding = (r.filled / r.blockSize + 1) * r.blockSize := by
      rw [Nat.succ_mul]
      omega
    rw [drain, fillUp_filled, fillUp_blockSize, hcount, Nat.mul_div_cancel _ h.blockSize_pos]
  obtain ⟨hsame, hcont⟩ := (Continues.fillUp h).dropBlocks (r.filled / r.blockSize)
    (Nat.div_mul_le_self ..)
  replace hcont : Continues r.drain.2 _ _ := hcont
  have hfilled := hcont.filled_eq
  have hbs : r.drain.2.blockSize = r.blockSize := (dropBlocks_frame _ r).1
  rw [drain_filled, Bytes.length_zeros] at hfilled
  obtain ⟨holdest, halike⟩ := hcont.takeBack (by omega) (by omega)
  rw [flushCycle, hblocks, dropBlocks_succ, fillUp_snd, if_pos (by omega), holdest, hsame,
    hcont.offset_eq]
  exact ⟨rfl, halike⟩

/-! ### What is seen later -/

namespace Continues

theorem symm (h : Alike r r') : Alike r' r :=
  ⟨h.valid', h.valid, h.blockSize_eq.symm, h.capacity_eq.symm, h.tail_eq.symm, h.offset_eq.symm,
    by rw [h.queue_eq, List.append_nil, List.append_nil]⟩

theorem trans (h : Alike r r') (h' : Alike r' r'') : Alike r r'' :=
  ⟨h.valid, h'.valid', h'.blockSize_eq.trans h.blockSize_eq, h'.capacity_eq.trans h.capacity_eq,
    h'.tail_eq.trans h.tail_eq, h'.offset_eq.trans h.offset_eq,
    by rw [h'.queue_eq, List.append_nil, h.queue_eq]⟩

theorem head_eq (h : Alike r r') : r'.head = r.head := by
  rw [h.valid'.head_eq, h.valid.head_eq, h.tail_eq, h.capacity_eq, h.filled_eq]
  rfl

/-- Rings that are alike take the same bytes, and are alike afterwards. -/
theorem push (h : Alike r r') (bytes : Bytes) :
    (r'.push bytes).2 = (r.push bytes).2 ∧ Alike (r.push bytes).1 (r'.push bytes).1 := by
  have hfree : r'.free = r.free := by
    rw [free, free, h.capacity_eq, h.filled_eq]
    rfl
  refine ⟨congrArg (min bytes.length) hfree, h.valid.push bytes, h.valid'.push bytes, ?_, ?_, ?_, ?_, ?_⟩
  · rw [push_blockSize h.valid', push_blockSize h.valid, h.blockSize_eq]
  · rw [push_capacity h.valid', push_capacity h.valid, h.capacity_eq]
  · rw [push_tail h.valid', push_tail h.valid, h.tail_eq]
  · rw [push_tailOffset h.valid', push_tailOffset h.valid, h.offset_eq]
  · rw [queue_push h.valid', queue_push h.valid, h.queue_eq, hfree, List.append_nil, List.append_nil]

theorem flushCycle (h : Alike r r') :
    r'.flushCycle.1 = r.flushCycle.1 ∧ Alike r.flushCycle.2 r'.flushCycle.2 := by
  have hfilled : r'.filled = r.filled := h.filled_eq
  obtain ⟨hblocks, hdrain⟩ := h.drain
  by_cases hz : r.filled % r.blockSize = 0
  · have hz' : r'.filled % r'.blockSize = 0 := by rw [hfilled, h.blockSize_eq, hz]
    rw [flushCycle_of_whole hz, flushCycle_of_whole hz']
    exact ⟨hblocks, hdrain⟩
  · have hz' : r'.filled % r'.blockSize ≠ 0 := by rwa [hfilled, h.blockSize_eq]
    obtain ⟨hout, halike⟩ := flushCycle_of_partial h.valid hz
    obtain ⟨hout', halike'⟩ := flushCycle_of_partial h.valid' hz'
    have hpadding : r'.padding = r.padding := by rw [padding, padding, hfilled, h.blockSize_eq]
    refine ⟨?_, (halike.symm.trans hdrain).trans halike'⟩
    rw [hout, hout', hblocks, hdrain.offset_eq, hdrain.queue_eq, hpadding, List.append_nil]

/-- Nothing that is done with them tells two rings that are alike apart. -/
theorem use? (h : Alike r r') (u : Use) : (r.use? u = none ∧ r'.use? u = none) ∨
    ∃ next next' seen, r.use? u = some (next, seen) ∧ r'.use? u = some (next', seen) ∧
      Alike next next' := by
  cases u with
  | push bytes =>
    obtain ⟨htook, halike⟩ := h.push bytes
    exact .inr ⟨_, _, _, rfl, by rw [Ring.use?, htook], halike⟩
  | pop =>
    have hready : r'.blockReady = r.blockReady := by
      rw [blockReady, blockReady, h.filled_eq, h.blockSize_eq]
      rfl
    by_cases hb : r.blockReady = true
    · obtain ⟨holdest, halike⟩ := h.dropOldest (of_decide_eq_true hb)
      refine .inr ⟨_, _, _, if_pos hb, ?_, halike⟩
      rw [Ring.use?, if_pos (hready.trans hb), holdest, h.offset_eq]
    · exact .inl ⟨if_neg hb, if_neg (by rwa [hready])⟩
  | flush =>
    obtain ⟨hblocks, halike⟩ := h.flushCycle
    exact .inr ⟨_, _, _, rfl, by rw [Ring.use?, hblocks], halike⟩

theorem seen? (uses : List Use) : ∀ {r r' : Ring}, Alike r r' → r'.seen? uses = r.seen? uses := by
  induction uses with
  | nil => exact fun _ => rfl
  | cons u us ih =>
    intro r r' h
    rcases h.use? u with ⟨hnone, hnone'⟩ | ⟨next, next', seen, hsome, hsome', halike⟩
    · rw [Ring.seen?, Ring.seen?, hnone, hnone']
    · rw [Ring.seen?, Ring.seen?, hsome, hsome']
      simp only [Option.bind_eq_bind, Option.bind_some, ih halike]

end Continues

/-- A flush is invisible to the ring.

    Where the last block is not complete, a flush ends in the same place, with the same bytes, as
    letting the whole blocks go and no more. It hands out these blocks, which are what is buffered up
    to less than a block, and one more, the bytes that are left with zeros behind them. Whatever is
    done later, flushes included, with the one ring and with the other: the same bytes are taken, and
    the same blocks are handed out at the same offsets. -/
theorem flush_cycle_invisible (h : r.Valid) (hpart : r.filled % r.blockSize ≠ 0) :
    (r.flushCycle.2.head = r.drain.2.head ∧ r.flushCycle.2.tail = r.drain.2.tail ∧
      r.flushCycle.2.filled = r.drain.2.filled ∧
      r.flushCycle.2.tailOffset = r.drain.2.tailOffset ∧
      r.flushCycle.2.endOffset = r.drain.2.endOffset ∧
      r.flushCycle.2.queue = r.drain.2.queue) ∧
    (r.drain.2.blockReady = false ∧
      (r.drain.1.map Prod.snd).flatten ++ r.drain.2.queue = r.queue) ∧
    r.flushCycle.1 = r.drain.1 ++
      [(r.drain.2.tailOffset, r.drain.2.queue ++ Bytes.zeros r.padding)] ∧
    ∀ uses, r.flushCycle.2.seen? uses = r.drain.2.seen? uses := by
  obtain ⟨hout, halike⟩ := flushCycle_of_partial h hpart
  have hlt := Nat.mod_lt r.filled h.blockSize_pos
  have hbs : r.drain.2.blockSize = r.blockSize := (dropBlocks_frame _ r).1
  refine ⟨⟨halike.head_eq, halike.tail_eq, halike.filled_eq, halike.offset_eq, ?_, ?_⟩,
    ⟨?_, flatten_dropBlocks _ h (Nat.div_mul_le_self ..)⟩, hout, fun uses => halike.seen? uses⟩
  · rw [endOffset, endOffset, halike.offset_eq, halike.filled_eq]
    rfl
  · rw [halike.queue_eq, List.append_nil]
  · refine decide_eq_false ?_
    rw [hbs, drain_filled]
    omega

/-- The padded block stands at the end of the storage, over bytes that were let go of long ago. The
    storages differ afterwards, and nothing else does. -/
theorem flush_cycle_invisible_wrapped : ∃ r : Ring, r.Valid ∧ r.filled % r.blockSize ≠ 0 ∧
    r.storage.toList = [9, 10, 11, 12, 13, 6, 7, 8] ∧ r.tail = 0 ∧ r.filled = 5 ∧
    r.flushCycle.1 = [(8, [9, 10, 11, 12]), (12, [13, 0, 0, 0])] ∧
    r.flushCycle.2.storage.toList = [9, 10, 11, 12, 13, 0, 0, 0] ∧
    r.drain.2.storage.toList = [9, 10, 11, 12, 13, 6, 7, 8] ∧
    ∀ uses, r.flushCycle.2.seen? uses = r.drain.2.seen? uses := by
  let ops : List Operation :=
    [.push [1, 2, 3, 4, 5, 6, 7, 8], .dropOldest, .dropOldest, .push [9, 10, 11, 12, 13]]
  have h : new 4 2 = .ok { storage := .zeros (4 * 2), blockSize := 4, blocks := 2 } := rfl
  have hops : Obeys false { storage := .zeros (4 * 2), blockSize := 4, blocks := 2 } ops := by
    decide +kernel
  have hvalid := valid_run h hops
  refine ⟨_, hvalid, by decide +kernel, by decide +kernel, by decide +kernel, by decide +kernel,
    by decide +kernel, by decide +kernel, by decide +kernel, ?_⟩
  exact (flush_cycle_invisible hvalid (by decide +kernel)).2.2.2

end BlockLog.Ring
