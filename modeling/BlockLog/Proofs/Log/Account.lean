import BlockLog.Log.State
import BlockLog.Proofs.Ring

/-! What has happened to a log so far, and the ring told from it: the ring has the end of the log, and
    behind that the padding of a flush that is not over.

        log:     ├────────────────────────────────────────────┤
                 0                                            log.length
        ring:                  ├──────────────────────────────┼─────┤
                               tailOffset                        pad
                               ├────────── filled ──────────────────┤ -/

namespace BlockLog

/-- What has happened to a log so far. -/
structure Account where
  /-- The bytes pushed. -/
  log : Bytes
  /-- How many of them are on the device. -/
  durable : Nat
  /-- How many of them a finished flush has covered. -/
  flushed : Nat

/-- The ring holds the end of the log, and behind it the padding of a flush. -/
structure Buffers (s : LogState) (log : Bytes) : Prop where
  ring : s.ring.Valid
  queue : s.ring.queue = (log ++ Bytes.zeros s.pad).drop s.ring.tailOffset
  endOffset : s.ring.tailOffset + s.ring.filled = log.length + s.pad
  pad_lt : s.pad < s.ring.blockSize
  aligned : s.draining = true ∨ 0 < s.pad → s.ring.blockSize ∣ log.length + s.pad
  pad_eq_zero : s.draining = false → s.failure = none → s.pad = 0
  /-- A padded block that has been popped can still be taken back. -/
  lastPopped : s.ring.filled = 0 → 0 < s.pad →
    s.ring.lastPopped = (log ++ Bytes.zeros s.pad).drop (s.ring.tailOffset - s.ring.blockSize)

@[simp] theorem LogState.settleFlush_blockSize (s : LogState) (pad : Nat) :
    (s.settleFlush pad).ring.blockSize = s.ring.blockSize := by
  unfold settleFlush
  dsimp only
  split <;> rfl

namespace Buffers

variable {s s' : LogState} {log : Bytes}

/-- The length of a log is the number of bytes pushed. -/
theorem length_eq (h : Buffers s log) : s.length = log.length := by
  have := h.endOffset
  rw [LogState.length, Ring.endOffset]
  omega

/-- A ring that has just been made holds the end of an empty log. -/
theorem start {blockSize blocks : Nat} {ring : Ring} (cache : Cache)
    (h : Ring.new blockSize blocks = .ok ring) : Buffers { ring := ring, cache := cache } [] := by
  obtain ⟨hvalid, -, hfilled, htail, -⟩ := Ring.new_eq_ok h
  exact
    { ring := hvalid
      queue := by
        have hlen := hvalid.length_queue
        rw [hfilled] at hlen
        show ring.queue = _
        rw [List.eq_nil_of_length_eq_zero hlen]
        exact List.drop_nil.symm
      endOffset := by
        show ring.tailOffset + ring.filled = 0
        rw [htail, hfilled]
      pad_lt := hvalid.blockSize_pos
      aligned := fun _ => Nat.dvd_zero _
      pad_eq_zero := fun _ _ => rfl
      lastPopped := fun _ hp => by cases hp }

/-- Only the ring and the flush under way matter. -/
theorem congr (h : Buffers s log) (hring : s'.ring = s.ring) (hpad : s'.pad = s.pad)
    (hdrain : s'.draining = true → s.draining = true)
    (hidle : s'.draining = false → s'.failure = none → s.draining = false ∧ s.failure = none) :
    Buffers s' log where
  ring := by rw [hring]; exact h.ring
  queue := by rw [hring, hpad]; exact h.queue
  endOffset := by rw [hring, hpad]; exact h.endOffset
  pad_lt := by rw [hring, hpad]; exact h.pad_lt
  aligned := by rw [hring, hpad]; exact fun hd => h.aligned (hd.imp_left hdrain)
  pad_eq_zero hd hf := by
    rw [hpad]
    obtain ⟨hd', hf'⟩ := hidle hd hf
    exact h.pad_eq_zero hd' hf'
  lastPopped := by rw [hring, hpad]; exact h.lastPopped

theorem push (h : Buffers s log) (hd : s.draining = false) (hf : s.failure = none) (rest : Bytes) :
    Buffers { s with ring := (s.ring.push rest).1 } (log ++ rest.take s.ring.free) := by
  have hpad := h.pad_eq_zero hd hf
  have hend := h.endOffset
  have hq := h.queue
  rw [hpad] at hend hq
  rw [Bytes.zeros_zero, List.append_nil] at hq
  exact
    { ring := h.ring.push rest
      queue := by
        rw [Ring.queue_push h.ring, Ring.push_tailOffset h.ring, hq, hpad, Bytes.zeros_zero,
          List.append_nil, List.drop_append_of_le_length (by omega)]
      endOffset := by
        show (s.ring.push rest).1.tailOffset + (s.ring.push rest).1.filled = _ + s.pad
        rw [Ring.push_tailOffset h.ring, Ring.push_filled h.ring, List.length_append]
        omega
      pad_lt := by
        rw [Ring.push_blockSize h.ring]
        exact h.pad_lt
      aligned := by
        rintro (hd' | hp)
        · rw [show s.draining = true from hd'] at hd
          cases hd
        · rw [show s.pad = 0 from hpad] at hp
          omega
      pad_eq_zero := h.pad_eq_zero
      lastPopped := fun _ hp => absurd (show 0 < s.pad from hp) (by omega) }

/-- A flush completes the last block. -/
theorem padding (h : Buffers s log) (hd : s.draining = false) (hf : s.failure = none) :
    Buffers { s with ring := s.ring.fillUp.1, pad := s.ring.padding, draining := true } log := by
  have hpad := h.pad_eq_zero hd hf
  have hend := h.endOffset
  have hq := h.queue
  rw [hpad] at hend hq
  rw [Bytes.zeros_zero, List.append_nil] at hq
  have hpos := h.ring.blockSize_pos
  have hdvd : s.ring.blockSize ∣ log.length + s.ring.padding := by
    have hall := Nat.dvd_add h.ring.offset_aligned (Bytes.dvd_add_gap hpos s.ring.filled)
    rw [← Nat.add_assoc, hend] at hall
    exact hall
  exact
    { ring := h.ring.fillUp
      queue := by
        rw [Ring.queue_fillUp h.ring, Ring.fillUp_tailOffset, hq,
          List.drop_append_of_le_length (by omega)]
      endOffset := by
        show s.ring.fillUp.1.tailOffset + s.ring.fillUp.1.filled = _ + s.ring.padding
        rw [Ring.fillUp_tailOffset, Ring.fillUp_filled]
        omega
      pad_lt := by
        rw [Ring.fillUp_blockSize]
        exact Bytes.gap_lt hpos _
      aligned := fun _ => by
        rw [Ring.fillUp_blockSize]
        exact hdvd
      pad_eq_zero := fun hd' => by cases hd'
      lastPopped := fun he hp => by
        replace he : s.ring.fillUp.1.filled = 0 := he
        replace hp : 0 < s.ring.padding := hp
        rw [Ring.fillUp_filled] at he
        omega }

theorem pop (h : Buffers s log) (hf : s.ring.blockSize ≤ s.ring.filled) : Buffers s.popWritten log where
  ring := h.ring.dropOldest hf
  queue := by
    show s.ring.dropOldest.queue = _
    rw [Ring.queue_dropOldest h.ring hf, h.queue, List.drop_drop]
    rfl
  endOffset := by
    have := h.endOffset
    show s.ring.tailOffset + s.ring.blockSize + (s.ring.filled - s.ring.blockSize) =
      log.length + s.pad
    omega
  pad_lt := h.pad_lt
  aligned := h.aligned
  pad_eq_zero := h.pad_eq_zero
  lastPopped he _ := by
    have hlen := h.ring.length_queue
    replace he : s.ring.filled - s.ring.blockSize = 0 := he
    show s.ring.dropOldest.lastPopped = (log ++ Bytes.zeros s.pad).drop
      (s.ring.tailOffset + s.ring.blockSize - s.ring.blockSize)
    rw [Ring.lastPopped_dropOldest h.ring, Ring.oldest_eq_take_queue h.ring hf,
      List.take_of_length_le (by omega), h.queue, Nat.add_sub_cancel]

/-- Taking the padding back leaves what of the log does not fill a block. -/
theorem settle (h : Buffers s log) (he : s.ring.filled = 0) :
    Buffers ({ s with draining := false }.settleFlush s.pad) log := by
  have hend := h.endOffset
  have hlt := h.pad_lt
  rw [he, Nat.add_zero] at hend
  unfold LogState.settleFlush
  dsimp only
  split
  · rename_i hp
    -- the tail stands behind the padded block, so there is a block to go back
    have hle : s.ring.blockSize ≤ s.ring.tailOffset :=
      Nat.le_of_dvd (by omega) h.ring.offset_aligned
    exact
      { ring := h.ring.takeBack he hlt
        queue := by
          show (s.ring.takeBack s.pad).queue =
            (log ++ Bytes.zeros 0).drop (s.ring.tailOffset - s.ring.blockSize)
          rw [Ring.queue_takeBack h.ring, h.lastPopped he hp, Bytes.zeros_zero,
            List.append_nil, List.drop_append_of_le_length (by omega),
            List.take_append_of_le_length (by rw [List.length_drop]; omega),
            List.take_of_length_le (by rw [List.length_drop]; omega)]
        endOffset := by
          show s.ring.tailOffset - s.ring.blockSize + (s.ring.blockSize - s.pad) = log.length + 0
          omega
        pad_lt := h.ring.blockSize_pos
        aligned := by
          rintro (hd' | hp')
          · cases hd'
          · cases hp'
        pad_eq_zero := fun _ _ => rfl
        lastPopped := fun _ hp' => by cases hp' }
  · rename_i hp
    have hz : s.pad = 0 := by omega
    have hq := h.queue
    rw [hz] at hend hq
    exact
      { ring := h.ring
        queue := hq
        endOffset := by
          show s.ring.tailOffset + s.ring.filled = log.length + 0
          omega
        pad_lt := h.ring.blockSize_pos
        aligned := by
          rintro (hd' | hp')
          · cases hd'
          · cases hp'
        pad_eq_zero := fun _ _ => rfl
        lastPopped := fun _ hp' => by cases hp' }

/-- What a flush leaves in the ring is less than a block. -/
theorem settle_filled_lt (h : Buffers s log) (he : s.ring.filled = 0) :
    (s.settleFlush s.pad).ring.filled < (s.settleFlush s.pad).ring.blockSize := by
  have hpos := h.ring.blockSize_pos
  rw [LogState.settleFlush_blockSize]
  unfold LogState.settleFlush
  dsimp only
  split
  · show s.ring.blockSize - s.pad < s.ring.blockSize
    omega
  · omega

/-- Where no flush is under way, the ring ends with the log. -/
theorem endOffset_eq (h : Buffers s log) (hd : s.draining = false) (hf : s.failure = none) :
    s.ring.endOffset = log.length := by
  have hend := h.endOffset
  rw [h.pad_eq_zero hd hf] at hend
  exact hend

/-- Without padding, and with less than a block in the ring, the ring has what of the log does not fill
    a block. -/
theorem rest (h : Buffers s log) (hpad : s.pad = 0)
    (hlt : s.ring.filled < s.ring.blockSize) :
    s.ring.filled = log.length % s.ring.blockSize ∧
      s.ring.tailOffset = log.length - log.length % s.ring.blockSize ∧
      s.ring.queue = log.drop (log.length - log.length % s.ring.blockSize) := by
  have hend := h.endOffset
  have hq := h.queue
  rw [hpad, Nat.add_zero] at hend
  rw [hpad, Bytes.zeros_zero, List.append_nil] at hq
  obtain ⟨first, hfirst⟩ := h.ring.offset_aligned
  have hrest : log.length % s.ring.blockSize = s.ring.filled := by
    rw [← hend, hfirst, Nat.mul_add_mod, Nat.mod_eq_of_lt hlt]
  have htail : s.ring.tailOffset = log.length - log.length % s.ring.blockSize := by omega
  exact ⟨hrest.symm, htail, htail ▸ hq⟩

/-- A flush that is done finds the end of the log. -/
theorem endOffset_settle (h : Buffers s log) (he : s.ring.filled = 0) :
    (s.settleFlush s.pad).ring.endOffset = log.length := (h.settle he).endOffset

end Buffers

end BlockLog
