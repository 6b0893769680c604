import BlockLog.Log.Machine
import BlockLog.Proofs.Cache
import BlockLog.Proofs.Log.Account

/-! Device, cache and writer, each told from the account of what has happened to the log and from the
    ring.

        log:     ├──────────────────────────┬──────────────┬─────────┤
                 0            flushed ≤ durable            │         log.length
        device:  ├─────────────────────────────────────────┤
        ring:                        ├───────────────────────────────┤
                                     tailOffset, a block before `durable` at most -/

namespace BlockLog

/-! ### The device -/

/-- The device has the log up to `durable`, and that is as far as the ring has let go of it, or up to
    the end of the block that the ring will let go of next. -/
structure Lands (r : Ring) (contents initial log : Bytes) (durable : Nat) : Prop where
  contents_eq : contents = Bytes.image r.blockSize (log.take durable) initial
  durable_le : durable ≤ log.length
  popped : min r.tailOffset log.length ≤ durable
  ahead : durable ≤ r.tailOffset + r.blockSize

namespace Lands

variable {s : LogState} {r r' : Ring} {contents initial log : Bytes} {durable : Nat}

theorem congr (h : Lands r contents initial log durable) (hb : r'.blockSize = r.blockSize)
    (ht : r'.tailOffset = r.tailOffset) : Lands r' contents initial log durable where
  contents_eq := by rw [hb]; exact h.contents_eq
  durable_le := h.durable_le
  popped := by rw [ht]; exact h.popped
  ahead := by rw [hb, ht]; exact h.ahead

theorem push (h : Lands r contents initial log durable) (ht : r.tailOffset ≤ log.length)
    (more : Bytes) : Lands r contents initial (log ++ more) durable where
  contents_eq := by
    rw [List.take_append_of_le_length h.durable_le]
    exact h.contents_eq
  durable_le := by
    have := h.durable_le
    rw [List.length_append]
    omega
  popped := by
    have := h.popped
    omega
  ahead := h.ahead

/-- The device has every byte up to `flushed`. -/
theorem getElem?_contents (h : Lands r contents initial log durable) {i : Nat} (hi : i < durable) :
    contents[i]? = log[i]? := by
  have := h.durable_le
  rw [h.contents_eq, Bytes.getElem?_image _ (by rw [List.length_take]; omega),
    List.getElem?_take_of_lt hi]

/-- A device that has the whole log has an image of it. -/
theorem contents_eq_image (h : Lands r contents initial log durable) (hd : durable = log.length) :
    contents = Bytes.image r.blockSize log initial := by
  rw [h.contents_eq, hd, List.take_length]

/-- When the ring has run empty, the device has the whole log. -/
theorem durable_eq (h : Lands s.ring contents initial log durable) (hb : Buffers s log)
    (he : s.ring.filled = 0) : durable = log.length := by
  have := hb.endOffset
  have := h.popped
  have := h.durable_le
  omega

/-- The oldest block is what of the log comes behind the blocks popped, up to the end of a block; if
    the log ends inside it, the padding of a flush completes it. -/
theorem take_append_oldest (hb : Buffers s log) (hf : s.ring.blockSize ≤ s.ring.filled) :
    log.take s.ring.tailOffset ++ s.ring.oldest =
      Bytes.padded s.ring.blockSize
        (log.take (min (s.ring.tailOffset + s.ring.blockSize) log.length)) := by
  have hend := hb.endOffset
  have hlt := hb.pad_lt
  have hpos := hb.ring.blockSize_pos
  rw [Ring.oldest_eq_take_queue hb.ring hf, hb.queue]
  by_cases hlog : s.ring.tailOffset + s.ring.blockSize ≤ log.length
  · have hdvd : s.ring.blockSize ∣ s.ring.tailOffset + s.ring.blockSize :=
      Nat.dvd_add hb.ring.offset_aligned (Nat.dvd_refl _)
    have hgap : Bytes.gap s.ring.blockSize (log.take (s.ring.tailOffset + s.ring.blockSize)).length =
        0 := by
      rw [List.length_take, Nat.min_eq_left hlog]
      exact Bytes.gap_eq_zero hdvd
    rw [Nat.min_eq_left hlog, Bytes.padded, hgap, Bytes.zeros_zero, List.append_nil,
      List.drop_append_of_le_length (by omega),
      List.take_append_of_le_length (by rw [List.length_drop]; omega), List.take_add]
  · have hdvd := hb.aligned (.inr (by omega))
    -- the block is padded, so it is the last one
    have hlast : log.length + s.pad = s.ring.tailOffset + s.ring.blockSize := by
      have h₁ : s.ring.blockSize ∣ s.ring.tailOffset + s.ring.blockSize :=
        Nat.dvd_add hb.ring.offset_aligned (Nat.dvd_refl _)
      rcases Nat.lt_or_ge (s.ring.tailOffset + s.ring.blockSize) (log.length + s.pad) with h | h
      · have := add_le_of_dvd_of_lt h₁ hdvd h
        omega
      · omega
    have hwhole : ((log ++ Bytes.zeros s.pad).drop s.ring.tailOffset).length ≤ s.ring.blockSize := by
      rw [List.length_drop, List.length_append, Bytes.length_zeros]
      omega
    rw [Nat.min_eq_right (by omega), List.take_length, Bytes.padded, Bytes.gap_unique hpos hlt hdvd,
      List.take_of_length_le hwhole, List.drop_append_of_le_length (by omega), ← List.append_assoc,
      List.take_append_drop]

/-- Writing the oldest block puts it on the device, whether or not its first bytes are there already. -/
theorem write (h : Lands s.ring contents initial log durable) (hb : Buffers s log)
    (hf : s.ring.blockSize ≤ s.ring.filled) :
    Lands s.ring (contents.overwrite s.ring.tailOffset s.ring.oldest) initial log
      (min (s.ring.tailOffset + s.ring.blockSize) log.length) where
  contents_eq := by
    have hend := hb.endOffset
    have hlt := hb.pad_lt
    have hpopped := h.popped
    have hle := h.durable_le
    have hahead := h.ahead
    have hmin : durable ≤ min (s.ring.tailOffset + s.ring.blockSize) log.length := by omega
    have htake : log.take durable =
        (log.take (min (s.ring.tailOffset + s.ring.blockSize) log.length)).take durable := by
      rw [List.take_take, Nat.min_eq_left hmin]
    rw [h.contents_eq, htake]
    refine Bytes.overwrite_image hb.ring.blockSize_pos (by omega)
      (by rw [List.length_take]; omega) ?_
    rw [List.take_take, Nat.min_eq_left (by omega)]
    exact take_append_oldest hb hf
  durable_le := Nat.min_le_right ..
  popped := by omega
  ahead := Nat.min_le_left ..

theorem pop (h : Lands r contents initial log durable)
    (hw : min (r.tailOffset + r.blockSize) log.length ≤ durable) :
    Lands r.dropOldest contents initial log durable where
  contents_eq := h.contents_eq
  durable_le := h.durable_le
  popped := hw
  ahead := Nat.le_trans h.ahead (Nat.le_add_right ..)

theorem settle (h : Lands s.ring contents initial log durable) (hb : Buffers s log)
    (he : s.ring.filled = 0) :
    Lands ({ s with draining := false }.settleFlush s.pad).ring contents initial log durable := by
  have hend := hb.endOffset
  have hdurable := h.durable_eq hb he
  have hpopped := h.popped
  unfold LogState.settleFlush
  dsimp only
  split
  · exact
      { contents_eq := h.contents_eq
        durable_le := h.durable_le
        popped := by
          omega
        ahead := by
          show durable ≤ s.ring.tailOffset - s.ring.blockSize + s.ring.blockSize
          omega }
  · exact h

end Lands

/-! ### The cache -/

/-- A block whose write has gone through may still be cached as it was before the write, until the
    writer has accounted for it. Here is its offset. -/
def WriterPoint.rewritten? : WriterPoint → Option Nat
  | .wrote offset _ (.ok ()) => some offset
  | _ => none

/-- A cached block has the bytes that finished flushes have covered; and it is the block as it is on the
    device, unless it is the one that has just been rewritten. -/
structure Caches (c : Cache) (blockSize : Nat) (contents : Bytes) (rewritten : Option Nat)
    (log : Bytes) (flushed : Nat) : Prop where
  valid : c.Valid
  blockSize_eq : c.blockSize = blockSize
  agrees : ∀ b buffer, c.get? b = some buffer → ∀ i, i < blockSize → b * blockSize + i < flushed →
    buffer[i]? = log[b * blockSize + i]?
  coherent : ∀ b buffer, c.get? b = some buffer → rewritten ≠ some (b * blockSize) →
    buffer = contents.slice (b * blockSize) blockSize

namespace Caches

variable {c : Cache} {blockSize : Nat} {contents log : Bytes} {rewritten : Option Nat} {flushed : Nat}

theorem push (h : Caches c blockSize contents rewritten log flushed) (hf : flushed ≤ log.length)
    (more : Bytes) : Caches c blockSize contents rewritten (log ++ more) flushed where
  valid := h.valid
  blockSize_eq := h.blockSize_eq
  agrees b buffer hb i hi hlt := by
    rw [List.getElem?_append_left (by omega)]
    exact h.agrees b buffer hb i hi hlt
  coherent := h.coherent

theorem evict (h : Caches c blockSize contents rewritten log flushed) (block : Nat) :
    Caches (c.evict block).1 blockSize contents rewritten log flushed where
  valid := h.valid.evict block
  blockSize_eq := by rw [Cache.evict_blockSize]; exact h.blockSize_eq
  agrees b buffer hb := by
    rw [Cache.get?_evict h.valid] at hb
    split at hb
    · cases hb
    · exact h.agrees b buffer hb
  coherent b buffer hb := by
    rw [Cache.get?_evict h.valid] at hb
    split at hb
    · cases hb
    · exact h.coherent b buffer hb

/-- Once the block that has been rewritten is dropped, everything in the cache is as it is on the device. -/
theorem evict_rewritten {offset : Nat} (h : Caches c blockSize contents (some offset) log flushed)
    (hpos : 0 < blockSize) :
    Caches (c.evict (offset / blockSize)).1 blockSize contents none log flushed where
  valid := h.valid.evict _
  blockSize_eq := by rw [Cache.evict_blockSize]; exact h.blockSize_eq
  agrees := (h.evict _).agrees
  coherent b buffer hb _ := by
    rw [Cache.get?_evict h.valid] at hb
    split at hb
    · cases hb
    · rename_i hne
      refine h.coherent b buffer hb fun heq => hne ?_
      rw [Option.some.inj heq, Nat.mul_div_cancel _ hpos]

/-- A write leaves the cached copy of its own block behind, and no other. -/
theorem write {offset : Nat} {block : Bytes} (h : Caches c blockSize contents none log flushed)
    (ho : offset ≤ contents.length) (hd : blockSize ∣ offset) (hl : block.length = blockSize) :
    Caches c blockSize (contents.overwrite offset block) (some offset) log flushed where
  valid := h.valid
  blockSize_eq := h.blockSize_eq
  agrees := h.agrees
  coherent b buffer hb hne := by
    have hdb : blockSize ∣ b * blockSize := Nat.dvd_mul_left ..
    have hne' : b * blockSize ≠ offset := fun heq => hne (congrArg some heq.symm)
    rw [Bytes.slice_overwrite_of_disjoint ho]
    · exact h.coherent b buffer hb (by simp)
    · rcases Nat.lt_or_gt_of_ne hne' with hlt | hgt
      · exact .inl (add_le_of_dvd_of_lt hdb hd hlt)
      · exact .inr (by rw [hl]; exact add_le_of_dvd_of_lt hd hdb hgt)

/-- A fill with the block as it is on the device. -/
theorem install_ok {r : Ring} {initial : Bytes} {durable : Nat} {ε : Type} (block : Nat)
    (h : Caches c blockSize contents rewritten log flushed)
    (hl : Lands r contents initial log durable) (hf : flushed ≤ durable)
    (hlen : (contents.slice (block * blockSize) blockSize).length = blockSize) :
    Caches (c.install block (contents.slice (block * blockSize) blockSize) (.ok () : Except ε Unit)).1
      blockSize contents rewritten log flushed where
  valid := h.valid.install _ _ (hlen.trans h.blockSize_eq.symm) _
  blockSize_eq := by rw [Cache.install_blockSize]; exact h.blockSize_eq
  agrees b buffer hb i hi hlt := by
    rw [Cache.get?_install_ok _ _ h.valid] at hb
    split at hb
    · split at hb <;> cases hb
      rename_i heq
      rw [Bytes.getElem?_slice, if_pos hi, ← heq]
      exact hl.getElem?_contents (by omega)
    · exact h.agrees b buffer hb i hi hlt
  coherent b buffer hb hne := by
    rw [Cache.get?_install_ok _ _ h.valid] at hb
    split at hb
    · split at hb <;> cases hb
      rename_i heq
      rw [heq]
    · exact h.coherent b buffer hb hne

/-- A fill that broke off. -/
theorem install_error {ε : Type} {buffer : Bytes} (block : Nat) (e : ε)
    (h : Caches c blockSize contents rewritten log flushed) (hlen : buffer.length = blockSize) :
    Caches (c.install block buffer (.error e)).1 blockSize contents rewritten log flushed where
  valid := h.valid.install _ _ (hlen.trans h.blockSize_eq.symm) _
  blockSize_eq := by rw [Cache.install_blockSize]; exact h.blockSize_eq
  agrees b buffer' hb := by
    rw [Cache.get?_install_error _ _ h.valid] at hb
    split at hb
    · cases hb
    · exact h.agrees b buffer' hb
  coherent b buffer' hb := by
    rw [Cache.get?_install_error _ _ h.valid] at hb
    split at hb
    · cases hb
    · exact h.coherent b buffer' hb

/-- When the device has the whole log, so does every cached block. -/
theorem flush {r : Ring} {initial : Bytes} {durable : Nat}
    (h : Caches c blockSize contents none log flushed) (hl : Lands r contents initial log durable)
    (hd : durable = log.length) : Caches c blockSize contents none log log.length where
  valid := h.valid
  blockSize_eq := h.blockSize_eq
  agrees b buffer hb i hi hlt := by
    rw [h.coherent b buffer hb (by simp), Bytes.getElem?_slice, if_pos hi]
    exact hl.getElem?_contents (by omega)
  coherent := h.coherent

end Caches

/-! ### The writer -/

/-- The writer's block is the oldest of the ring, and once it has gone through, the device has it. -/
def Writes (r : Ring) (failure : Option Degradation) (length durable : Nat) : WriterPoint → Prop
  | .staged offset block | .inFlight offset block =>
    offset = r.tailOffset ∧ block = r.oldest ∧ r.blockSize ≤ r.filled
  | .wrote offset _ (.ok ()) =>
    offset = r.tailOffset ∧ r.blockSize ≤ r.filled ∧
      min (r.tailOffset + r.blockSize) length ≤ durable
  | .wrote offset _ (.error _) => offset = r.tailOffset ∧ r.blockSize ≤ r.filled
  | .leaving true => r.blockSize ≤ r.filled
  | .announcing true | .gone true => failure ≠ none
  | _ => True

namespace Writes

variable {r r' : Ring} {failure failure' : Option Degradation} {length length' durable durable' : Nat}
  {w : WriterPoint}

theorem wake (h : Writes r failure length durable w) :
    Writes r failure length durable w.wakeForItem := by
  cases w with
  | asleep => trivial
  | _ => exact h

/-- With less than a block in the ring the writer has no block. -/
theorem of_filled_lt (h : Writes r failure length durable w) (he : r.filled < r.blockSize)
    (hfail : failure ≠ none → failure' ≠ none) : Writes r' failure' length' durable' w := by
  match w, h with
  | .ready, _ | .asleep, _ | .leaving false, _ | .announcing false, _ | .gone false, _ => trivial
  | .staged _ _, h | .inFlight _ _, h => exact absurd h.2.2 (by omega)
  | .wrote _ _ (.ok ()), h => exact absurd h.2.1 (by omega)
  | .wrote _ _ (.error _), h => exact absurd h.2 (by omega)
  | .leaving true, h => exact absurd h (Nat.not_le.2 he)
  | .announcing true, h | .gone true, h => exact hfail h

theorem rewritten?_eq_none (h : Writes r failure length durable w) (he : r.filled < r.blockSize) :
    w.rewritten? = none := by
  match w, h with
  | .wrote _ _ (.ok ()), h => exact absurd h.2.1 (by omega)
  | .wrote _ _ (.error _), _ => rfl
  | .ready, _ | .asleep, _ | .staged _ _, _ | .inFlight _ _, _ | .leaving _, _
  | .announcing _, _ | .gone _, _ => rfl

/-- More bytes behind the oldest block change nothing for the writer. -/
theorem grow (h : Writes r failure length durable w) (hr : r.Valid) (hr' : r'.Valid)
    (hb : r'.blockSize = r.blockSize) (ht : r'.tailOffset = r.tailOffset)
    (hq : ∃ more, r'.queue = r.queue ++ more) (hl : r.blockSize ≤ r.filled →
      min (r.tailOffset + r.blockSize) length' ≤ min (r.tailOffset + r.blockSize) length) :
    Writes r' failure length' durable w := by
  obtain ⟨more, hq⟩ := hq
  have hfilled : r.filled ≤ r'.filled := by
    rw [← hr.length_queue, ← hr'.length_queue, hq, List.length_append]
    omega
  have holdest : r.blockSize ≤ r.filled → r'.oldest = r.oldest :=
    fun hf => (Ring.oldest_eq_of_append hr hr' hb hf hq).2
  match w, h with
  | .ready, _ | .asleep, _ | .leaving false, _ | .announcing false, _ | .gone false, _ => trivial
  | .staged _ _, h | .inFlight _ _, h =>
    exact ⟨h.1.trans ht.symm, h.2.1.trans (holdest h.2.2).symm, by have := h.2.2; omega⟩
  | .wrote _ _ (.ok ()), h =>
    refine ⟨h.1.trans ht.symm, by have := h.2.1; omega, ?_⟩
    rw [ht, hb]
    exact Nat.le_trans (hl h.2.1) h.2.2
  | .wrote _ _ (.error _), h => exact ⟨h.1.trans ht.symm, by have := h.2; omega⟩
  | .leaving true, h =>
    show r'.blockSize ≤ r'.filled
    rw [hb]
    exact Nat.le_trans h hfilled
  | .announcing true, h | .gone true, h => exact h

end Writes

end BlockLog
