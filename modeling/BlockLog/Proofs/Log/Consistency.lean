import BlockLog.Proofs.Log.History
import BlockLog.Proofs.Log.Storage
import BlockLog.Proofs.Log.Transition

/-! Ring, device, cache and writer together are as the account says, whatever the clients do: one
    lemma for each thing that a step can do to them. -/

namespace BlockLog

namespace Machine

open LawfulDevice

variable {δ : Type} [Device δ] [LawfulDevice δ]

/-- State, device and writer of a machine are as the account says. -/
structure Consistent (initial : Bytes) (m : Machine δ) (a : Account) : Prop where
  buffers : Buffers m.state a.log
  lands : Lands m.state.ring (contents m.device) initial a.log a.durable
  flushed_le : a.flushed ≤ a.durable
  caches : Caches m.state.cache m.state.ring.blockSize (contents m.device) m.writer.rewritten? a.log
    a.flushed
  writes : Writes m.state.ring m.state.failure a.log.length a.durable m.writer
  blockSize : Device.blockSize m.device = m.state.ring.blockSize

@[simp] theorem rewritten?_wakeForItem (w : WriterPoint) : w.wakeForItem.rewritten? = w.rewritten? := by
  cases w <;> rfl

/-- The parts of a machine that an account is about are the same; the writer may have been woken. -/
structure SameLog (m m' : Machine δ) : Prop where
  ring : m'.state.ring = m.state.ring
  cache : m'.state.cache = m.state.cache
  pad : m'.state.pad = m.state.pad
  draining : m'.state.draining = m.state.draining
  failure : m'.state.failure = m.state.failure
  contents : contents m'.device = contents m.device
  blockSize : Device.blockSize m'.device = Device.blockSize m.device
  writer : m'.writer = m.writer ∨ m'.writer = m.writer.wakeForItem

/-- What an account is about, of a machine. -/
def logParts (m : Machine δ) : Ring × Cache × Nat × Bool × Option Degradation × δ × WriterPoint :=
  (m.state.ring, m.state.cache, m.state.pad, m.state.draining, m.state.failure, m.device, m.writer)

theorem SameLog.of_parts {m m' : Machine δ} (h : m'.logParts = m.logParts) : SameLog m m' := by
  simp only [logParts, Prod.mk.injEq] at h
  obtain ⟨hring, hcache, hpad, hdraining, hfailure, hdevice, hwriter⟩ := h
  exact ⟨hring, hcache, hpad, hdraining, hfailure, by rw [hdevice], by rw [hdevice], .inl hwriter⟩

namespace Consistent

variable {initial : Bytes} {m m' : Machine δ} {a : Account}

theorem frame (h : Consistent initial m a) (hs : SameLog m m') : Consistent initial m' a where
  buffers := h.buffers.congr hs.ring hs.pad (fun hd => hs.draining ▸ hd)
    fun hd hf => ⟨hs.draining ▸ hd, hs.failure ▸ hf⟩
  lands := by rw [hs.ring, hs.contents]; exact h.lands
  flushed_le := h.flushed_le
  caches := by
    have hw : m'.writer.rewritten? = m.writer.rewritten? := by
      rcases hs.writer with hw | hw <;> rw [hw]
      exact rewritten?_wakeForItem _
    rw [hs.ring, hs.cache, hs.contents, hw]
    exact h.caches
  writes := by
    rw [hs.ring, hs.failure]
    rcases hs.writer with hw | hw <;> rw [hw]
    · exact h.writes
    · exact h.writes.wake
  blockSize := by rw [hs.blockSize, hs.ring]; exact h.blockSize

/-! ### What clients do -/

theorem push (h : Consistent initial m a) (hd : m.state.draining = false)
    (hf : m.state.failure = none) (rest : Bytes) :
    Consistent initial (m.pushing rest) { a with log := a.log ++ rest.take m.state.ring.free } := by
  have hpad := h.buffers.pad_eq_zero hd hf
  have hend := h.buffers.endOffset
  have hring := h.buffers.ring
  have hflushed := h.flushed_le
  have hdurable := h.lands.durable_le
  have hb := Ring.push_blockSize hring rest
  have ht := Ring.push_tailOffset hring rest
  have hw : (m.pushing rest).writer = m.writer ∨ (m.pushing rest).writer = m.writer.wakeForItem := by
    unfold pushing
    dsimp only
    split
    · exact .inr rfl
    · exact .inl rfl
  have hwrites : Writes (m.state.ring.push rest).1 m.state.failure
      (a.log ++ rest.take m.state.ring.free).length a.durable m.writer := by
    refine h.writes.grow hring (hring.push rest) hb ht ⟨_, Ring.queue_push hring rest⟩ fun hle => ?_
    omega
  exact
    { buffers := h.buffers.push hd hf rest
      lands := (h.lands.push (by omega) _).congr hb ht
      flushed_le := hflushed
      caches := by
        have hre : (m.pushing rest).writer.rewritten? = m.writer.rewritten? := by
          rcases hw with hw | hw <;> rw [hw]
          exact rewritten?_wakeForItem _
        rw [hre]
        show Caches _ (m.state.ring.push rest).1.blockSize _ _ _ _
        rw [hb]
        exact h.caches.push (by omega) _
      writes := by
        rcases hw with hw | hw <;> rw [hw]
        · exact hwrites
        · exact hwrites.wake
      blockSize := h.blockSize.trans hb.symm }

theorem padding (h : Consistent initial m a) (hd : m.state.draining = false)
    (hf : m.state.failure = none) : Consistent initial m.padding a where
  buffers := h.buffers.padding hd hf
  lands := h.lands.congr (Ring.fillUp_blockSize _) (Ring.fillUp_tailOffset _)
  flushed_le := h.flushed_le
  caches := by
    show Caches _ m.state.ring.fillUp.1.blockSize _ m.writer.wakeForItem.rewritten? _ _
    rw [Ring.fillUp_blockSize, rewritten?_wakeForItem]
    exact h.caches
  writes := by
    have hring := h.buffers.ring
    exact Writes.wake (h.writes.grow hring hring.fillUp (Ring.fillUp_blockSize _)
      (Ring.fillUp_tailOffset _) ⟨_, Ring.queue_fillUp hring⟩ fun _ => Nat.le_refl _)
  blockSize := h.blockSize.trans (Ring.fillUp_blockSize _).symm

/-- A flush that finds the ring empty covers the whole log. -/
theorem flush (h : Consistent initial m a) (he : m.state.ring.filled = 0) :
    Consistent initial m { a with flushed := a.log.length } := by
  have hdurable := h.lands.durable_eq h.buffers he
  have hpos := h.buffers.ring.blockSize_pos
  have hre := h.writes.rewritten?_eq_none (by omega)
  exact
    { buffers := h.buffers
      lands := h.lands
      flushed_le := Nat.le_of_eq hdurable.symm
      caches := by
        have hc := h.caches
        rw [hre] at hc ⊢
        exact hc.flush h.lands hdurable
      writes := h.writes
      blockSize := h.blockSize }

theorem settle (h : Consistent initial m a) (he : m.state.ring.filled = 0) :
    Consistent initial
      { m with state := { m.state with draining := false }.settleFlush m.state.pad }
      { a with flushed := a.log.length } := by
  have hflush := h.flush he
  have hpos := h.buffers.ring.blockSize_pos
  have hb : ({ m.state with draining := false }.settleFlush m.state.pad).ring.blockSize =
      m.state.ring.blockSize := LogState.settleFlush_blockSize ..
  exact
    { buffers := h.buffers.settle he
      lands := h.lands.settle h.buffers he
      flushed_le := hflush.flushed_le
      caches := by
        rw [hb]
        exact hflush.caches
      writes := h.writes.of_filled_lt (by omega) id
      blockSize := h.blockSize.trans hb.symm }

theorem failFlush (h : Consistent initial m a) {reason : Degradation}
    (hf : m.state.failure = some reason) :
    Consistent initial { m with state := { m.state with draining := false } } a where
  buffers := h.buffers.congr rfl rfl (fun hd => by cases hd) fun _ hf' => by
    rw [show m.state.failure = none from hf'] at hf
    cases hf
  lands := h.lands
  flushed_le := h.flushed_le
  caches := h.caches
  writes := h.writes
  blockSize := h.blockSize

/-- What a fill that goes through puts into the cache: the block as it is on the device. -/
theorem filled_eq (h : Consistent initial m a) (block : Nat)
    (ho : (Device.read m.device (block * m.state.ring.blockSize) m.state.ring.blockSize).outcome =
      .ok ()) :
    (m.state.cache.slotOf block).buffer.overlay
        (Device.read m.device (block * m.state.ring.blockSize) m.state.ring.blockSize).bytes =
      (contents m.device).slice (block * m.state.ring.blockSize) m.state.ring.blockSize ∧
    ((contents m.device).slice (block * m.state.ring.blockSize) m.state.ring.blockSize).length =
      m.state.ring.blockSize := by
  obtain ⟨hbytes, hlen⟩ := bytes_of_read_ok _ _ _ ho
  have hslot := h.caches.valid.length_buffer _ (Cache.slotOf_mem h.caches.valid block)
  rw [Bytes.overlay_of_length_eq (by rw [hlen, hslot, h.caches.blockSize_eq]), ← hbytes]
  exact ⟨rfl, hlen⟩

theorem fetch (h : Consistent initial m a) (block : Nat) :
    Consistent initial (m.fetching block) a where
  buffers := h.buffers.congr rfl rfl id fun hd hf => ⟨hd, hf⟩
  lands := by
    show Lands _ (contents (Device.read m.device _ _).device) _ _ _
    rw [contents_read]
    exact h.lands
  flushed_le := h.flushed_le
  caches := by
    show Caches _ _ (contents (Device.read m.device _ _).device) _ _ _
    rw [contents_read]
    cases ho : (Device.read m.device (block * m.state.ring.blockSize)
      m.state.ring.blockSize).outcome with
    | ok u =>
      obtain ⟨hbuffer, hlen⟩ := h.filled_eq block ho
      simp only [fetching, ho, hbuffer]
      exact h.caches.install_ok block h.lands h.flushed_le hlen
    | error e =>
      simp only [fetching, ho]
      refine h.caches.install_error block e ?_
      rw [Bytes.length_overlay, h.caches.valid.length_buffer _ (Cache.slotOf_mem h.caches.valid block),
        h.caches.blockSize_eq]
  writes := h.writes
  blockSize := (blockSize_read ..).trans h.blockSize

/-! ### What the writer does -/

theorem loop (h : Consistent initial m a) (hw : m.writer = .ready) (hl : LoopStep m m') :
    Consistent initial m' a := by
  have hwrites := h.writes
  have hcaches := h.caches
  rw [hw] at hwrites hcaches
  cases hl with
  | take ready =>
    exact
      { buffers := h.buffers.congr rfl rfl id fun hd hf => ⟨hd, hf⟩
        lands := h.lands
        flushed_le := h.flushed_le
        caches := hcaches.evict _
        writes := ⟨rfl, rfl, of_decide_eq_true ready⟩
        blockSize := h.blockSize }
  | sleep | leave =>
    exact
      { buffers := h.buffers.congr rfl rfl id fun hd hf => ⟨hd, hf⟩
        lands := h.lands
        flushed_le := h.flushed_le
        caches := hcaches
        writes := trivial
        blockSize := h.blockSize }

/-- The device reaches up to the oldest whole block. -/
theorem tailOffset_le_contents (h : Consistent initial m a)
    (hfilled : m.state.ring.blockSize ≤ m.state.ring.filled) :
    m.state.ring.tailOffset ≤ (contents m.device).length := by
  have hend := h.buffers.endOffset
  have hpad := h.buffers.pad_lt
  have hpopped := h.lands.popped
  have hdurable := h.lands.durable_le
  rw [h.lands.contents_eq, Bytes.length_image, List.length_take]
  omega

/-- A write that goes through puts its block on the device. -/
theorem contents_write (h : Consistent initial m a) {offset : Nat} {block : Bytes}
    (hw : m.writer = .inFlight offset block)
    (ho : (Device.write m.device offset block).outcome = .done) :
    contents (Device.write m.device offset block).device =
      (contents m.device).overwrite offset block := by
  have hwrites := h.writes
  rw [hw] at hwrites
  have hlen := Ring.length_oldest h.buffers.ring
  refine contents_of_write_done _ _ _ (fun hnil => ?_) ho
  rw [← hwrites.2.1, hnil] at hlen
  exact absurd hlen (Nat.ne_of_lt h.buffers.ring.blockSize_pos)

/-- A block goes to the device. -/
theorem write (h : Consistent initial m a) {offset : Nat} {block : Bytes}
    (hw : m.writer = .inFlight offset block)
    (ho : (Device.write m.device offset block).outcome = .done) :
    Consistent initial
      { m.withDeviceLock none with
        device := (Device.write m.device offset block).device
        writer := .wrote offset block (.ok ()) }
      { a with durable := min (offset + block.length) a.log.length } := by
  have hcontents := h.contents_write hw ho
  have hwrites := h.writes
  have hcaches := h.caches
  rw [hw] at hwrites hcaches
  obtain ⟨rfl, rfl, hfilled⟩ := hwrites
  have hring := h.buffers.ring
  have hlen := Ring.length_oldest hring
  have hahead := h.lands.ahead
  have hdurable := h.lands.durable_le
  have hflushed := h.flushed_le
  rw [hlen]
  exact
    { buffers := h.buffers
      lands := by
        rw [hcontents]
        exact h.lands.write h.buffers hfilled
      flushed_le := by
        show a.flushed ≤ min _ _
        omega
      caches := by
        rw [hcontents]
        exact hcaches.write (h.tailOffset_le_contents hfilled) hring.offset_aligned hlen
      writes := ⟨rfl, hfilled, Nat.le_refl _⟩
      blockSize := (blockSize_write ..).trans h.blockSize }

/-- A write that does not go through leaves everything as it was. -/
theorem failedWrite (h : Consistent initial m a) {offset : Nat} {block : Bytes} {w : WriterPoint}
    (hw : m.writer = .inFlight offset block)
    (ho : (Device.write m.device offset block).outcome ≠ .done)
    (hwrites : Writes m.state.ring m.state.failure a.log.length a.durable w)
    (hre : w.rewritten? = none) :
    Consistent initial
      { m.withDeviceLock none with
        device := (Device.write m.device offset block).device
        writer := w } a where
  buffers := h.buffers
  lands := by
    rw [contents_of_write_failed _ _ _ ho]
    exact h.lands
  flushed_le := h.flushed_le
  caches := by
    have hcaches := h.caches
    rw [hw] at hcaches
    rw [contents_of_write_failed _ _ _ ho, hre]
    exact hcaches
  writes := hwrites
  blockSize := (blockSize_write ..).trans h.blockSize

theorem account (h : Consistent initial m a) {offset : Nat} {block : Bytes}
    (hw : m.writer = .wrote offset block (.ok ())) : Consistent initial (m.accounted offset) a := by
  have hwrites := h.writes
  have hcaches := h.caches
  rw [hw] at hwrites hcaches
  obtain ⟨rfl, hfilled, hdurable⟩ := hwrites
  exact
    { buffers := (h.buffers.pop hfilled).congr rfl rfl id fun hd hf => ⟨hd, hf⟩
      lands := h.lands.pop hdurable
      flushed_le := h.flushed_le
      caches := hcaches.evict_rewritten h.buffers.ring.blockSize_pos
      writes := trivial
      blockSize := h.blockSize }

theorem failWrite (h : Consistent initial m a) {offset : Nat} {block : Bytes} {e : DeviceError}
    (hw : m.writer = .wrote offset block (.error e)) : Consistent initial (m.failWrite offset e) a := by
  have hcaches := h.caches
  rw [hw] at hcaches
  exact
    { buffers := h.buffers.congr rfl rfl id fun _ hf => by cases hf
      lands := h.lands
      flushed_le := h.flushed_le
      caches := hcaches.evict _
      writes := trivial
      blockSize := h.blockSize }

theorem recordExit (h : Consistent initial m a) {panicked : Bool} (hw : m.writer = .leaving panicked) :
    Consistent initial (m.recordExit panicked) a := by
  have hcaches := h.caches
  rw [hw] at hcaches
  have hfailure : m.state.failure ≠ none → (m.recordExit panicked).state.failure ≠ none := by
    intro hf
    show (if _ then _ else _) ≠ none
    rwa [if_neg fun h => hf h.2]
  have hpanic : panicked = true → (m.recordExit panicked).state.failure ≠ none := by
    intro hp
    show (if _ then _ else _) ≠ none
    split
    · simp
    · rename_i hn
      exact fun hf => hn ⟨hp, hf⟩
  exact
    { buffers := h.buffers.congr rfl rfl id fun hd hf =>
        ⟨hd, by_contra fun hne => hfailure hne hf⟩
      lands := h.lands
      flushed_le := h.flushed_le
      caches := hcaches
      writes := by
        cases panicked with
        | true => exact hpanic rfl
        | false => trivial
      blockSize := h.blockSize }

theorem announceExit (h : Consistent initial m a) {panicked : Bool}
    (hw : m.writer = .announcing panicked) : Consistent initial (m.announceExit panicked) a := by
  have hwrites := h.writes
  have hcaches := h.caches
  rw [hw] at hwrites hcaches
  exact
    { buffers := h.buffers
      lands := h.lands
      flushed_le := h.flushed_le
      caches := hcaches
      writes := by
        cases panicked with
        | true => exact hwrites
        | false => trivial
      blockSize := h.blockSize }

/-- A step of the writer, with what it has put on the device. -/
theorem writerStep (h : Consistent initial m a) (hs : WriterStep m m') :
    Consistent initial m'
      { a with durable :=
          DeviceCall.durable (m.deviceCall? (.step .writer)) a.log.length a.durable } := by
  cases hs with
  | loop ready _ loop =>
    rw [deviceCall?_of_not_inFlight (by rw [ready]; rfl)]
    exact h.loop ready loop
  | enter staged =>
    rw [deviceCall?_of_not_inFlight (by rw [staged]; rfl)]
    have hwrites := h.writes
    have hcaches := h.caches
    rw [staged] at hwrites hcaches
    exact
      { buffers := h.buffers
        lands := h.lands
        flushed_le := h.flushed_le
        caches := hcaches
        writes := hwrites
        blockSize := h.blockSize }
  | done inFlight done =>
    rw [deviceCall?_of_inFlight inFlight, done]
    exact h.write inFlight done
  | failed inFlight failed =>
    rw [deviceCall?_of_inFlight inFlight, failed]
    have hwrites := h.writes
    rw [inFlight] at hwrites
    exact h.failedWrite inFlight (by rw [failed]; simp) ⟨hwrites.1, hwrites.2.2⟩ rfl
  | panicked inFlight panicked =>
    rw [deviceCall?_of_inFlight inFlight, panicked]
    have hwrites := h.writes
    rw [inFlight] at hwrites
    exact h.failedWrite inFlight (by rw [panicked]; simp) hwrites.2.2 rfl
  | complete wrote _ loop =>
    rw [deviceCall?_of_not_inFlight (by rw [wrote]; rfl)]
    exact (h.account wrote).loop rfl loop
  | fail wrote =>
    rw [deviceCall?_of_not_inFlight (by rw [wrote]; rfl)]
    exact h.failWrite wrote
  | record leaving =>
    rw [deviceCall?_of_not_inFlight (by rw [leaving]; rfl)]
    exact h.recordExit leaving
  | announce announcing =>
    rw [deviceCall?_of_not_inFlight (by rw [announcing]; rfl)]
    exact h.announceExit announcing

end Consistent

end Machine

end BlockLog
