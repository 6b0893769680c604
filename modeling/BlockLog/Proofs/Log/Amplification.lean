import BlockLog.Proofs.Log.Degradation
import BlockLog.Proofs.Log.Independence

/-! How much a log writes. A block that the log fills is written once as a whole, when it is complete. A
    flush of a log that ends inside a block writes that block besides, filled up with zeros, and then
    takes it back into the ring, so that it will be written again. So what has been written is told
    from where the ring stands and from the flushes that were given while the log did not end with a
    block.

        blocks written  =  blocks let go of  +  blocks taken back
                           tailOffset / bs      one for each such flush

    It does not matter when the writer takes its steps, and reads and syncs may fail. -/

namespace BlockLog

/-- The call has a flush as its first part. -/
def Request.isFlushing : Request → Bool
  | .append _ => false
  | .flush | .read .. | .close => true

/-- A call is given that has a flush as its first part. -/
def Move.givesFlush : Move → Bool
  | .submit _ request => request.isFlushing
  | .step _ => false

/-- The flush of a call has not ended. -/
def ClientPoint.isFlushing : ClientPoint → Bool
  | .flushCalled _ | .flushAdmitted _ | .flushWaiting .. => true
  | _ => false

/-- The flush of a call has not looked at the ring yet. -/
def ClientPoint.isBeforeFlush : ClientPoint → Bool
  | .flushCalled _ | .flushAdmitted _ => true
  | _ => false

@[simp] theorem Purpose.isFlushing_next (purpose : Purpose) (flushed : Except LogError Nat) :
    (purpose.next flushed).isFlushing = false := by
  cases purpose <;> cases flushed <;> simp only [Purpose.next] <;> try rfl
  split <;> rfl

theorem ClientPoint.isFlushing_of_isBeforeFlush {p : ClientPoint} (h : p.isBeforeFlush = true) :
    p.isFlushing = true := by
  cases p <;> first | rfl | cases h

theorem ClientPoint.isFlushing_of_isFlushWaiting {p : ClientPoint} (h : p.isFlushWaiting = true) :
    p.isFlushing = true := by
  cases p <;> first | rfl | cases h

theorem ClientPoint.Woken.isFlushing {p q : ClientPoint} (h : ClientPoint.Woken p q) :
    q.isFlushing = p.isFlushing := by
  cases h <;> rfl

theorem ClientPoint.Woken.isBeforeFlush {p q : ClientPoint} (h : ClientPoint.Woken p q) :
    q.isBeforeFlush = p.isBeforeFlush := by
  cases h <;> rfl

theorem Request.isFlushing_entry (request : Request) :
    request.entry.isFlushing = request.isFlushing := by
  cases request <;> rfl

/-- The blocks that the client's flush, if it has not ended, is going to take back from a log of `length`
    bytes. -/
def ClientPoint.owes (blockSize length : Nat) (p : ClientPoint) : Nat :=
  if p.isFlushing = true ∧ length % blockSize ≠ 0 then 1 else 0

theorem ClientPoint.owes_eq_zero {p : ClientPoint} (blockSize length : Nat)
    (h : p.isFlushing = false ∨ blockSize ∣ length) : p.owes blockSize length = 0 := by
  refine if_neg fun hn => ?_
  rcases h with h | h
  · rw [hn.1] at h
    cases h
  · exact hn.2 (Nat.mod_eq_zero_of_dvd h)

theorem ClientPoint.owes_eq_one {p : ClientPoint} {blockSize length : Nat} (h : p.isFlushing = true)
    (hl : length % blockSize ≠ 0) : p.owes blockSize length = 1 := if_pos ⟨h, hl⟩

theorem ClientPoint.owes_le_one (blockSize length : Nat) (p : ClientPoint) :
    p.owes blockSize length ≤ 1 := by
  unfold owes
  split <;> omega

theorem ClientPoint.owes_congr {p q : ClientPoint} (blockSize length : Nat)
    (h : q.isFlushing = p.isFlushing) : q.owes blockSize length = p.owes blockSize length := by
  rw [owes, owes, h]

namespace History

variable {δ : Type}

/-- How many calls with a flush have been given. -/
def flushes : History δ → Nat
  | [] => 0
  | now :: earlier => flushes earlier + now.move.givesFlush.toNat

/-- How many of them were given while the log did not end with a block. -/
def unevenFlushes (blockSize : Nat) : History δ → Nat
  | [] => 0
  | now :: earlier => unevenFlushes blockSize earlier +
      if now.move.givesFlush = true ∧ (log earlier).length % blockSize ≠ 0 then 1 else 0

/-- Whenever a call with a flush was given, the writer had drained all whole blocks. -/
def Drained (past : History δ) : Prop :=
  ∀ now ∈ past, now.move.givesFlush = true → now.before.state.ring.blockReady = false

instance (past : History δ) : Decidable past.Drained :=
  inferInstanceAs (Decidable (∀ now ∈ past, _ = true → _ = false))

/-- The writes that went through of blocks that had bytes of the log only, the oldest first. -/
def wholeWrites [Device δ] : History δ → List DeviceCall
  | [] => []
  | now :: earlier => wholeWrites earlier ++
      match now.before.deviceCall? now.move with
      | some (.write offset block .done) =>
        if offset + block.length ≤ (log earlier).length then [.write offset block .done] else []
      | _ => []

end History

namespace Machine

open LawfulDevice

variable {δ : Type} [Device δ] [LawfulDevice δ] {initial : Bytes} {m m' m₁ : Machine δ} {a : Account}
  {t : Nat} {p p' : ClientPoint} {past : History δ}

/-! ### Steps of the client -/

/-- What a step of a client does to the flush of its call: it goes on with it, if there is one, or it ends
    it, in one of three ways. -/
inductive FlushMove (m m₁ : Machine δ) (log : Bytes) (p p' : ClientPoint) : Prop
  | goesOn (same : p'.isFlushing = p.isFlushing) (nextWrite : m₁.nextWrite = m.nextWrite)
    (flushes : m₁.state.totals.flushes = m.state.totals.flushes) : FlushMove m m₁ log p p'
  /-- Nothing is buffered. -/
  | nothing (ended : p'.isFlushing = false) (whole : m.state.ring.blockSize ∣ log.length)
    (nextWrite : m₁.nextWrite = m.nextWrite)
    (flushes : m₁.state.totals.flushes = m.state.totals.flushes) : FlushMove m m₁ log p p'
  /-- The writer has drained the ring, and the padding is taken back. -/
  | done (waits : p.isFlushWaiting = true) (ended : p'.isFlushing = false)
    (nextWrite : m₁.nextWrite = log.length / m.state.ring.blockSize)
    (taken : m₁.nextWrite + p.owes m.state.ring.blockSize log.length = m.nextWrite)
    (flushes : m₁.state.totals.flushes = m.state.totals.flushes + 1) : FlushMove m m₁ log p p'
  | refused (failed : m.state.failure ≠ none) (nextWrite : m₁.nextWrite = m.nextWrite) :
    FlushMove m m₁ log p p'

omit [LawfulDevice δ] in
theorem ClientStep.nextWrite_congr (hs : ClientStep m t p p' m₁)
    (hb : m₁.state.ring.blockSize = m.state.ring.blockSize)
    (ht : m₁.state.ring.tailOffset = m.state.ring.tailOffset) : m₁.nextWrite = m.nextWrite := by
  have hre : m₁.writer.rewritten? = m.writer.rewritten? := hs.writer_congr rewritten?_wakeForItem
  rw [nextWrite, nextWrite, hb, ht, hre]

/-- A flush that is done has taken its block back, if it padded one. -/
theorem flushMove_done (h : Inv initial m a) {purpose : Purpose}
    (hp : m.clients[t]? = some (.flushWaiting purpose m.state.pad false))
    (empty : m.state.ring.filled = 0)
    (hstate : m₁.state = { m.state with draining := false }.settleFlush m.state.pad)
    (hwriter : m₁.writer = m.writer) {size : Nat} :
    FlushMove m m₁ a.log (.flushWaiting purpose m.state.pad false) (purpose.next (.ok size)) := by
  have hc := h.consistent
  have hpos := hc.buffers.ring.blockSize_pos
  have hlt := hc.buffers.pad_lt
  have hbefore := hc.nextWrite_eq (by omega)
  have hafter := (hc.settle empty).nextWrite_eq (hc.buffers.settle_filled_lt empty)
  replace hafter : m₁.nextWrite = a.log.length / m.state.ring.blockSize := by
    rw [nextWrite, hstate, hwriter]
    refine hafter.trans ?_
    show (a.log ++ Bytes.zeros 0).length / _ = _
    rw [Bytes.zeros_zero, List.append_nil]
    exact congrArg _ (LogState.settleFlush_blockSize ..)
  refine .done rfl (Purpose.isFlushing_next ..) hafter ?_ (by rw [hstate]; rfl)
  rw [hafter, hbefore, List.length_append, Bytes.length_zeros]
  obtain ⟨blocks, hblocks⟩ := hc.buffers.aligned (.inl (h.serves t _ hp).2)
  by_cases hz : m.state.pad = 0
  · rw [ClientPoint.owes_eq_zero _ _ (.inr ⟨blocks, by omega⟩), hz]
    rfl
  · -- the last block is the padded one
    obtain ⟨whole, rfl⟩ : ∃ whole, blocks = whole + 1 :=
      Nat.exists_eq_succ_of_ne_zero fun h0 => by rw [h0] at hblocks; omega
    have hlog : a.log.length =
        m.state.ring.blockSize * whole + (m.state.ring.blockSize - m.state.pad) := by
      rw [Nat.mul_succ] at hblocks
      omega
    have hrest : m.state.ring.blockSize - m.state.pad < m.state.ring.blockSize := by omega
    rw [hblocks, Nat.mul_div_cancel_left _ hpos, ClientPoint.owes_eq_one rfl]
    · rw [hlog, Nat.mul_add_div hpos, Nat.div_eq_of_lt hrest, Nat.add_zero]
    · rw [hlog, Nat.mul_add_mod, Nat.mod_eq_of_lt hrest]
      omega

theorem ClientStep.flushMove (h : Inv initial m a) (hp : m.clients[t]? = some p)
    (hs : ClientStep m t p p' m₁) : FlushMove m m₁ a.log p p' := by
  have hring := h.consistent.buffers.ring
  have hcongr := hs.nextWrite_congr
  have hfeeds : ∀ {data rest : Bytes} {offset : Nat}, Feeds m p data rest offset →
      p.isFlushing = false := by
    intro data rest offset hf
    cases hf <;> rfl
  cases hs with
  | feedNothing _ feeds => exact .goesOn (hfeeds feeds).symm rfl rfl
  | feedRefused _ feeds => exact .goesOn (hfeeds feeds).symm rfl rfl
  | feedBlocked _ feeds => exact .goesOn (hfeeds feeds).symm rfl rfl
  | feedPart _ feeds =>
    exact .goesOn (hfeeds feeds).symm
      (hcongr (Ring.push_blockSize hring _) (Ring.push_tailOffset hring _)) rfl
  | feedAll _ feeds =>
    exact .goesOn (hfeeds feeds).symm
      (hcongr (Ring.push_blockSize hring _) (Ring.push_tailOffset hring _)) rfl
  | flushPads =>
    exact .goesOn rfl
      (hcongr (Ring.fillUp_blockSize _) (Ring.fillUp_tailOffset _)) rfl
  | refuseFlush _ failed | flushFails _ failed => exact .refused (by simp [failed]) rfl
  | flushNothing _ sound empty =>
    have hend := h.consistent.buffers.endOffset_eq (h.draining_eq_false hp rfl rfl) sound
    rw [Ring.endOffset, empty, Nat.add_zero] at hend
    exact .nothing (Purpose.isFlushing_next ..) (hend ▸ hring.offset_aligned) rfl rfl
  | flushDone _ _ empty =>
    obtain ⟨rfl, -⟩ := h.serves t _ hp
    refine flushMove_done h hp empty ?_ ?_ <;> rfl
  | announceStop => exact .goesOn rfl (hcongr rfl rfl) rfl
  | _ => exact .goesOn rfl rfl rfl

/-- What is pushed comes into a ring without padding. -/
theorem Inv.nextWrite_le_of_pushes (h : Inv initial m a) (hp : m.clients[t]? = some p)
    (hpush : m.pushes (.step (.client t)) ≠ []) :
    m.nextWrite ≤ a.log.length / m.state.ring.blockSize := by
  have hsound : m.state.failure = none := by
    by_contra hf
    exact hpush (pushes_eq_nil hp (.inr hf))
  have hdrain : m.state.draining = false := by
    cases p with
    | appendAdmitted | appendWaiting => exact h.draining_eq_false hp rfl rfl
    | _ => exact absurd (pushes_eq_nil hp (.inl rfl)) hpush
  exact h.consistent.nextWrite_le_of_pad (h.consistent.buffers.pad_eq_zero hdrain hsound)

/-! ### Steps of the writer -/

/-- How many blocks have been written, those counted that are still to be accounted for. -/
def written (m : Machine δ) : Nat :=
  m.state.totals.writtenBlocks + if m.writer.rewritten?.isSome then 1 else 0

omit [Device δ] [LawfulDevice δ] in
theorem LoopStep.written_eq (hl : LoopStep m m') (hw : m.writer.rewritten? = none) :
    m'.written = m.written ∧ m'.nextWrite = m.nextWrite := by
  unfold written nextWrite
  rw [hw]
  cases hl <;> exact ⟨rfl, rfl⟩

omit [LawfulDevice δ] in
theorem WriterStep.flushes_eq (hs : WriterStep m m') :
    m'.state.totals.flushes = m.state.totals.flushes := by
  cases hs with
  | loop _ _ loop | complete _ _ loop => cases loop <;> rfl
  | _ => rfl

/-- A step of the writer writes the block that is next, or none. -/
theorem WriterStep.written_eq (h : Consistent initial m a) (hs : WriterStep m m') :
    (m'.written = m.written ∧ m'.nextWrite = m.nextWrite ∧
      ∀ offset block, m.deviceCall? (.step .writer) ≠ some (.write offset block .done)) ∨
    (m'.written = m.written + 1 ∧ m'.nextWrite = m.nextWrite + 1 ∧
      m.nextWrite = m.state.ring.tailOffset / m.state.ring.blockSize ∧
      m.state.ring.blockSize ≤ m.state.ring.filled ∧
      m.deviceCall? (.step .writer) =
        some (.write m.state.ring.tailOffset m.state.ring.oldest .done)) := by
  have hquiet : m.writer.isInFlight = false →
      ∀ offset block, m.deviceCall? (.step .writer) ≠ some (.write offset block .done) := by
    intro hnot offset block hcall
    rw [deviceCall?_of_not_inFlight hnot] at hcall
    cases hcall
  cases hs with
  | loop point _ loop =>
    obtain ⟨hwritten, hnext⟩ := loop.written_eq (by rw [point]; rfl)
    exact .inl ⟨hwritten, hnext, hquiet (by rw [point]; rfl)⟩
  | complete point _ loop =>
    obtain ⟨hwritten, hnext⟩ := loop.written_eq rfl
    refine .inl ⟨hwritten.trans ?_, hnext.trans (nextWrite_accounted h point),
      hquiet (by rw [point]; rfl)⟩
    rw [written, written, point]
    rfl
  | enter point | fail point | record point | announce point =>
    refine .inl ⟨?_, ?_, hquiet (by rw [point]; rfl)⟩
    · rw [written, written, point]
      rfl
    · rw [nextWrite, nextWrite, point]
      rfl
  | failed point outcome | panicked point outcome =>
    refine .inl ⟨?_, ?_, fun offset block hcall => ?_⟩
    · rw [written, written, point]
      rfl
    · rw [nextWrite, nextWrite, point]
      rfl
    · rw [deviceCall?_of_inFlight point, outcome] at hcall
      cases hcall
  | done point outcome =>
    have hwrites := h.writes
    rw [point] at hwrites
    obtain ⟨rfl, rfl, hfilled⟩ := hwrites
    refine .inr ⟨?_, ?_, ?_, hfilled, ?_⟩
    · rw [written, written, point]
      rfl
    · rw [nextWrite, nextWrite, point]
      rfl
    · rw [nextWrite, point]
      rfl
    · rw [deviceCall?_of_inFlight point, outcome]

/-! ### Whole blocks -/

omit [LawfulDevice δ] in
theorem wholeWrites_of_none {now : Moment δ}
    (h : ∀ offset block, now.before.deviceCall? now.move ≠ some (.write offset block .done)) :
    History.wholeWrites (now :: past) = past.wholeWrites := by
  rw [History.wholeWrites]
  split
  · exact absurd ‹_› (h _ _)
  · exact List.append_nil _

/-- How many of the blocks that the log fills have been written. -/
def wholeBlocks (m : Machine δ) (log : Bytes) : Nat :=
  min m.nextWrite (log.length / m.state.ring.blockSize)

/-- Bytes come in behind the blocks that the log fills, and a flush takes back none of those. -/
theorem ClientStep.wholeBlocks_eq (h : Inv initial m a) (hp : m.clients[t]? = some p)
    (hs : ClientStep m t p p' m₁) :
    m₁.wholeBlocks (a.log ++ m.pushes (.step (.client t))) = m.wholeBlocks a.log := by
  have hblockSize := (hs.ring_size h.consistent.buffers.ring).2
  have hmore : a.log.length / m.state.ring.blockSize ≤
      (a.log ++ m.pushes (.step (.client t))).length / m.state.ring.blockSize :=
    Nat.div_le_div_right (by simp)
  rw [wholeBlocks, wholeBlocks, hblockSize]
  cases hs.flushMove h hp with
  | goesOn _ hnext | nothing _ _ hnext | refused _ hnext =>
    by_cases hpush : m.pushes (.step (.client t)) = []
    · rw [hpush, List.append_nil, hnext]
    · have hle := h.nextWrite_le_of_pushes hp hpush
      omega
  | done _ _ hnext taken => omega

/-- The writes of whole blocks are those of the first blocks of the log, one for each. -/
def WroteWhole (past : History δ) (m : Machine δ) : Prop :=
  past.wholeWrites = writes m.state.ring.blockSize past.log 0 (m.wholeBlocks past.log)

theorem WroteWhole.clientStep {flushed : Nat} (hw : WroteWhole past m)
    (h : Inv initial m ⟨past.log, past.durable, flushed⟩) (hp : m.clients[t]? = some p)
    (hs : ClientStep m t p p' m₁) :
    WroteWhole (⟨m, .step (.client t), m₁.setClient t p'⟩ :: past) (m₁.setClient t p') := by
  have hblockSize := (hs.ring_size h.consistent.buffers.ring).2
  have hfits : m.wholeBlocks past.log * m.state.ring.blockSize ≤ past.log.length :=
    Nat.le_trans (Nat.mul_le_mul_right _ (Nat.min_le_right ..)) (Nat.div_mul_le_self ..)
  have hcall : ∀ offset block,
      m.deviceCall? (.step (.client t)) ≠ some (.write offset block .done) :=
    fun offset block => deviceCall?_client_ne_write offset block _
  rw [WroteWhole, wholeWrites_of_none hcall, hw, History.log]
  show _ = writes m₁.state.ring.blockSize _ 0 (m₁.wholeBlocks _)
  rw [hblockSize, hs.wholeBlocks_eq h hp, writes_extend _ hfits]

theorem WroteWhole.writerStep {flushed : Nat} (hw : WroteWhole past m)
    (h : Consistent initial m ⟨past.log, past.durable, flushed⟩) (hs : WriterStep m m') :
    WroteWhole (⟨m, .step .writer, m'⟩ :: past) m' := by
  have hblockSize := hs.totals_eq.2.2
  rw [WroteWhole, History.log_writer, hblockSize]
  rcases hs.written_eq h with ⟨-, hnext, hcall⟩ | ⟨-, hnext, hfirst, hfilled, hcall⟩
  · rw [wholeWrites_of_none hcall, wholeBlocks, hnext, hblockSize]
    exact hw
  · have hlen := Ring.length_oldest h.buffers.ring
    have htail := h.tailOffset_eq
    have hpos := h.buffers.ring.blockSize_pos
    rw [History.wholeWrites, hcall, hw, wholeBlocks, wholeBlocks, hblockSize, hnext, hfirst]
    dsimp only
    rw [hlen]
    split
    · rename_i hwhole
      have hlt : m.state.ring.tailOffset / m.state.ring.blockSize + 1 ≤
          past.log.length / m.state.ring.blockSize := by
        rw [Nat.le_div_iff_mul_le hpos, Nat.succ_mul, htail]
        exact hwhole
      have hblock : m.state.ring.oldest = past.log.block m.state.ring.blockSize
          (m.state.ring.tailOffset / m.state.ring.blockSize) := by
        rw [h.oldest_eq hfilled, Bytes.block, Bytes.block, htail, Bytes.slice_append_of_le hwhole]
      rw [Nat.min_eq_left (Nat.le_of_succ_le hlt), Nat.min_eq_left hlt,
        ← writes_append _ (Nat.zero_le _) (Nat.le_succ _), writes_cons _ (Nat.lt_succ_self _),
        writes_self, htail, ← hblock]
    · rename_i hpadded
      have hle : past.log.length / m.state.ring.blockSize ≤
          m.state.ring.tailOffset / m.state.ring.blockSize := by
        rw [← Nat.lt_add_one_iff, Nat.div_lt_iff_lt_mul hpos, Nat.succ_mul, htail]
        omega
      rw [Nat.min_eq_right hle, Nat.min_eq_right (Nat.le_succ_of_le hle)]
      exact List.append_nil _

/-! ### What the totals say -/

/-- How the totals of a log with one client, which stands at `p`, go with its run. -/
structure Tallied (past : History δ) (m : Machine δ) (p : ClientPoint) : Prop where
  clients : m.clients = [p]
  appended : m.state.totals.appendedBytes + p.pushed = past.log.length
  calls : past.deviceCalls.countP DeviceCall.isWrite = m.written
  blocks : m.written + p.owes m.state.ring.blockSize past.log.length =
    m.nextWrite + past.unevenFlushes m.state.ring.blockSize
  flushes_le : m.state.totals.flushes + p.isFlushing.toNat ≤ past.flushes
  le_flushes : past.unevenFlushes m.state.ring.blockSize ≤
    m.state.totals.flushes + p.owes m.state.ring.blockSize past.log.length
  drained : past.Drained →
    (m.state.totals.flushes + p.owes m.state.ring.blockSize past.log.length =
      past.unevenFlushes m.state.ring.blockSize) ∧
    (p.isBeforeFlush = true → m.state.ring.filled < m.state.ring.blockSize) ∧
    (p.isFlushWaiting = true → past.log.length % m.state.ring.blockSize ≠ 0)

omit [LawfulDevice δ] in
theorem Tallied.submit (ht : Tallied past m p) {request : Request}
    (hm : m.submit? t request = some m') :
    Tallied (⟨m, .submit t request, m'⟩ :: past) m' request.entry := by
  obtain ⟨last, hp, -, hcase⟩ := submit?_cases hm
  obtain ⟨rfl, rfl⟩ := eq_of_clients ht.clients hp
  obtain ⟨hstate, hwriter, -⟩ := submit?_frame hm
  have hclients : m'.clients = m.clients.set 0 request.entry := by
    rcases hcase with ⟨-, rfl⟩ | ⟨-, -, rfl⟩ <;> rfl
  have hlog := History.log_submit m m' 0 request past
  have hwritten : m'.written = m.written := by rw [written, written, hstate, hwriter]
  have hnext : m'.nextWrite = m.nextWrite := by rw [nextWrite, nextWrite, hstate, hwriter]
  have howes : ∀ blockSize length, ClientPoint.owes blockSize length (.idle last) = 0 :=
    fun blockSize length => ClientPoint.owes_eq_zero _ _ (.inl rfl)
  -- the call that is given owes what it is counted for
  have hgiven : ∀ blockSize, History.unevenFlushes blockSize (⟨m, .submit 0 request, m'⟩ :: past) =
      past.unevenFlushes blockSize + request.entry.owes blockSize past.log.length := by
    intro blockSize
    rw [History.unevenFlushes, ClientPoint.owes, Request.isFlushing_entry]
    rfl
  have hwrittenBefore := ht.blocks
  have hle := ht.le_flushes
  rw [howes, Nat.add_zero] at hwrittenBefore hle
  exact
    { clients := by rw [hclients, ht.clients]; rfl
      appended := by
        rw [hlog, hstate, ← ht.appended]
        cases request <;> rfl
      calls := by rw [History.deviceCalls_submit, hwritten]; exact ht.calls
      blocks := by rw [hlog, hwritten, hnext, hstate, hgiven, hwrittenBefore, Nat.add_assoc]
      flushes_le := by
        rw [hstate, History.flushes, Request.isFlushing_entry]
        exact Nat.add_le_add_right ht.flushes_le _
      le_flushes := by rw [hlog, hstate, hgiven]; exact Nat.add_le_add_right hle _
      drained := fun hall => by
        obtain ⟨hnow, hearlier⟩ := List.forall_mem_cons.1 hall
        obtain ⟨hflushes, -, -⟩ := ht.drained hearlier
        rw [howes, Nat.add_zero] at hflushes
        rw [hlog, hstate, hgiven, hflushes]
        refine ⟨rfl, fun hbefore => ?_, fun hwaits => ?_⟩
        · have hgives := ClientPoint.isFlushing_of_isBeforeFlush hbefore
          rw [Request.isFlushing_entry] at hgives
          exact Nat.not_le.1 (of_decide_eq_false (hnow hgives))
        · cases request <;> cases hwaits }

omit [LawfulDevice δ] in
/-- A writer none of whose writes fails writes a block or does not call the device. -/
theorem deviceCall?_writer_eq_none
    (hd : ∀ call, m.deviceCall? (.step .writer) = some call → call.isWrite = true → call.Succeeded)
    (hnone : ∀ offset block, m.deviceCall? (.step .writer) ≠ some (.write offset block .done)) :
    m.deviceCall? (.step .writer) = none := by
  cases hw : m.writer with
  | inFlight offset block =>
    have hcall := deviceCall?_of_inFlight hw
    have hdone : _ = WriteOutcome.done := hd _ hcall rfl
    rw [hdone] at hcall
    exact absurd hcall (hnone _ _)
  | _ => exact deviceCall?_of_not_inFlight (by rw [hw]; rfl)

theorem Tallied.writerStep {flushed : Nat} (ht : Tallied past m p)
    (h : Consistent initial m ⟨past.log, past.durable, flushed⟩)
    (hd : ∀ call, m.deviceCall? (.step .writer) = some call → call.isWrite = true → call.Succeeded)
    (hs : WriterStep m m') :
    ∃ q, Tallied (⟨m, .step .writer, m'⟩ :: past) m' q := by
  obtain ⟨wake, hwake, hclients⟩ := hs.clients
  obtain ⟨happended, hfilled, hblockSize⟩ := hs.totals_eq
  have hw := hwake p
  have hlog := History.log_writer m m' past
  have hflushes : m'.state.totals.flushes = m.state.totals.flushes := hs.flushes_eq
  have howes : ∀ blockSize length, (wake p).owes blockSize length = p.owes blockSize length :=
    fun blockSize length => ClientPoint.owes_congr _ _ hw.isFlushing
  have hwrote : m'.written = m.written + ((m.deviceCall? (.step .writer)).toList).countP
        DeviceCall.isWrite ∧
      m'.nextWrite = m.nextWrite + ((m.deviceCall? (.step .writer)).toList).countP
        DeviceCall.isWrite := by
    rcases hs.written_eq h with ⟨hwritten, hnext, hcall⟩ | ⟨hwritten, hnext, -, -, hcall⟩
    · rw [deviceCall?_writer_eq_none hd hcall]
      exact ⟨hwritten, hnext⟩
    · rw [hcall]
      exact ⟨hwritten, hnext⟩
  exact ⟨wake p,
    { clients := by rw [hclients, ht.clients]; rfl
      appended := by rw [hlog, happended, hw.pushed]; exact ht.appended
      calls := by rw [History.deviceCalls, List.countP_append, ht.calls, hwrote.1]
      blocks := by
        have hbefore := ht.blocks
        rw [hlog, hblockSize, howes, hwrote.1, hwrote.2]
        show _ = _ + past.unevenFlushes _
        omega
      flushes_le := by rw [hflushes, hw.isFlushing]; exact ht.flushes_le
      le_flushes := by rw [hlog, hblockSize, hflushes, howes]; exact ht.le_flushes
      drained := fun hall => by
        obtain ⟨hsame, hbefore, hwaits⟩ := ht.drained (List.forall_mem_cons.1 hall).2
        rw [hlog, hblockSize, hflushes, howes, hw.isBeforeFlush, ClientPoint.Woken.isFlushWaiting hw]
        exact ⟨hsame, fun hb => Nat.lt_of_le_of_lt hfilled (hbefore hb), hwaits⟩ }⟩

omit [LawfulDevice δ] in
theorem ClientStep.written_eq (hs : ClientStep m t p p' m₁) : m₁.written = m.written := by
  have hre : m₁.writer.rewritten? = m.writer.rewritten? := hs.writer_congr rewritten?_wakeForItem
  have htotals : m₁.state.totals.writtenBlocks = m.state.totals.writtenBlocks := by
    cases hs <;> rfl
  rw [written, written, htotals, hre]

omit [Device δ] [LawfulDevice δ] in
/-- While a flush is under way nothing is pushed, and what it owes stays the same. -/
theorem owes_of_same (hp : m.clients[t]? = some p) (hsame : p'.isFlushing = p.isFlushing)
    (blockSize : Nat) (log : Bytes) :
    p'.owes blockSize (log ++ m.pushes (.step (.client t))).length = p.owes blockSize log.length := by
  cases hflush : p.isFlushing with
  | false =>
    rw [ClientPoint.owes_eq_zero _ _ (.inl hflush), ClientPoint.owes_eq_zero _ _
      (.inl (hsame.trans hflush))]
  | true =>
    have hquiet : p.isAppending = false := by
      cases p <;> first | rfl | cases hflush
    rw [pushes_eq_nil hp (.inl hquiet), List.append_nil, ClientPoint.owes_congr _ _ hsame]

/-- A flush that looks at the ring when less than a block is buffered pads that, if it waits at all. -/
theorem ClientStep.uneven (h : Inv initial m a) (hp : m.clients[t]? = some p)
    (hs : ClientStep m t p p' m₁)
    (hbefore : p.isBeforeFlush = true → m.state.ring.filled < m.state.ring.blockSize)
    (hwaits : p.isFlushWaiting = true → a.log.length % m.state.ring.blockSize ≠ 0) :
    (p'.isBeforeFlush = true → m₁.state.ring.filled < m.state.ring.blockSize) ∧
      (p'.isFlushWaiting = true →
        (a.log ++ m.pushes (.step (.client t))).length % m.state.ring.blockSize ≠ 0) := by
  cases hs with
  | admitFlush => exact ⟨fun _ => hbefore rfl, fun hw => by cases hw⟩
  | flushWaits =>
    rw [pushes_eq_nil hp (.inl rfl), List.append_nil]
    exact ⟨fun hb => (by cases hb), fun _ => hwaits rfl⟩
  | flushPads _ sound some_filled =>
    have hlt := hbefore rfl
    have hpad := h.consistent.buffers.pad_eq_zero (h.draining_eq_false hp rfl rfl) sound
    obtain ⟨hfilled, -⟩ := h.consistent.buffers.rest hpad hlt
    rw [pushes_eq_nil hp (.inl rfl), List.append_nil]
    exact ⟨fun hb => (by cases hb), fun _ => hfilled ▸ some_filled⟩
  | refuseFlush | flushNothing | flushFails | flushDone =>
    have hover := Purpose.isFlushing_next
    refine ⟨fun hb => ?_, fun hw => ?_⟩
    · have hflush := ClientPoint.isFlushing_of_isBeforeFlush hb
      rw [hover] at hflush
      cases hflush
    · have hflush := ClientPoint.isFlushing_of_isFlushWaiting hw
      rw [hover] at hflush
      cases hflush
  | _ => exact ⟨fun hb => (by cases hb), fun hw => by cases hw⟩

/-- What a step of a client changes of what its flush owes, of the blocks that are to be written and of the
    flushes counted balances. -/
theorem ClientStep.balance (h : Inv initial m a) (hsound : m.state.failure = none)
    (hp : m.clients[t]? = some p) (hs : ClientStep m t p p' m₁) {owes owes' : Nat}
    (howes : owes = p.owes m.state.ring.blockSize a.log.length)
    (howes' : owes' =
      p'.owes m.state.ring.blockSize (a.log ++ m.pushes (.step (.client t))).length) :
    owes' + m.nextWrite = owes + m₁.nextWrite ∧
      m₁.state.totals.flushes + p'.isFlushing.toNat ≤ m.state.totals.flushes + p.isFlushing.toNat ∧
      m.state.totals.flushes + owes ≤ m₁.state.totals.flushes + owes' ∧
      ((p.isFlushWaiting = true → a.log.length % m.state.ring.blockSize ≠ 0) →
        m₁.state.totals.flushes + owes' = m.state.totals.flushes + owes) := by
  cases hs.flushMove h hp with
  | goesOn same hnext hflushes =>
    rw [owes_of_same hp same, ← howes] at howes'
    rw [hnext, hflushes, same, howes']
    exact ⟨rfl, Nat.le_refl _, Nat.le_refl _, fun _ => rfl⟩
  | nothing ended whole hnext hflushes =>
    rw [ClientPoint.owes_eq_zero _ _ (.inr whole)] at howes
    rw [ClientPoint.owes_eq_zero _ _ (.inl ended)] at howes'
    rw [hnext, hflushes, ended, howes, howes']
    exact ⟨rfl, Nat.add_le_add_left (Nat.zero_le _) _, Nat.le_refl _, fun _ => rfl⟩
  | done waits ended hnext taken hflushes =>
    have hflushing := ClientPoint.isFlushing_of_isFlushWaiting waits
    have hone := p.owes_le_one m.state.ring.blockSize a.log.length
    rw [ClientPoint.owes_eq_zero _ _ (.inl ended)] at howes'
    rw [← howes] at taken hone
    rw [hflushes, ended, hflushing, howes']
    refine ⟨by omega, Nat.le_refl _, by omega, fun huneven => ?_⟩
    rw [howes, ClientPoint.owes_eq_one hflushing (huneven waits)]
  | refused failed => exact absurd hsound failed

theorem Tallied.clientStep {flushed : Nat} (ht : Tallied past m p)
    (h : Inv initial m ⟨past.log, past.durable, flushed⟩) (hsound : Sound m)
    (hp : m.clients[t]? = some p) (hs : ClientStep m t p p' m₁) :
    Tallied (⟨m, .step (.client t), m₁.setClient t p'⟩ :: past) (m₁.setClient t p') p' := by
  obtain ⟨rfl, -⟩ := eq_of_clients ht.clients hp
  have hblockSize : (m₁.setClient 0 p').state.ring.blockSize = m.state.ring.blockSize :=
    (hs.ring_size h.consistent.buffers.ring).2
  have hwritten : (m₁.setClient 0 p').written = m.written := hs.written_eq
  have hcall : (m.deviceCall? (.step (.client 0))).toList.countP DeviceCall.isWrite = 0 := by
    cases hc : m.deviceCall? (.step (.client 0)) with
    | none => rfl
    | some call =>
      cases call with
      | write offset block outcome => exact absurd hc (deviceCall?_client_ne_write _ _ _)
      | read | sync => rfl
  obtain ⟨howes, hflushes, hle, heq⟩ := hs.balance h hsound.failure hp rfl rfl
  have hblocks := ht.blocks
  have hlog : History.log (⟨m, .step (.client 0), m₁.setClient 0 p'⟩ :: past) =
      past.log ++ m.pushes (.step (.client 0)) := rfl
  have huneven : ∀ blockSize, History.unevenFlushes blockSize
      (⟨m, .step (.client 0), m₁.setClient 0 p'⟩ :: past) = past.unevenFlushes blockSize :=
    fun _ => rfl
  exact
    { clients := by
        show m₁.clients.set 0 p' = _
        rw [hs.clients_eq, ht.clients]
        rfl
      appended := by
        rw [hlog, List.length_append, ← ht.appended]
        show m₁.state.totals.appendedBytes + _ = _
        exact hs.appended h hsound hp
      calls := by
        rw [History.deviceCalls, List.countP_append, hcall, hwritten]
        exact ht.calls
      blocks := by
        rw [hlog, hblockSize, hwritten, huneven]
        show _ = m₁.nextWrite + _
        dsimp only at howes
        omega
      flushes_le := Nat.le_trans hflushes ht.flushes_le
      le_flushes := by
        rw [hlog, hblockSize, huneven]
        exact Nat.le_trans ht.le_flushes hle
      drained := fun hall => by
        obtain ⟨hsame, hbefore, hwaits⟩ := ht.drained (List.forall_mem_cons.1 hall).2
        have hnext := hs.uneven h hp hbefore hwaits
        rw [hlog, hblockSize, huneven]
        exact ⟨(heq hwaits).trans hsame, hnext⟩ }

/-! ### Runs -/

variable {device : δ} {settings : Settings} {clients : Nat} {m₀ : Machine δ}

theorem wroteWhole_of_reaches (h₀ : open? device settings clients = .ok m₀) (h : Reaches m₀ past m) :
    WroteWhole past m := by
  induction h with
  | start =>
    show [] = writes _ [] 0 (min _ (0 / _))
    rw [Nat.zero_div, Nat.min_zero, writes_self]
  | @move past m m' move reached next ih =>
    obtain ⟨⟨flushed, hinv⟩, -⟩ := inv_of_reaches h₀ reached
    match move, next with
    | .submit t request, next =>
      obtain ⟨hstate, hwriter, -⟩ := submit?_frame next
      rw [WroteWhole, wholeWrites_of_none fun _ _ hcall => (by cases hcall), History.log_submit,
        wholeBlocks, nextWrite, hstate, hwriter]
      exact ih
    | .step .writer, next => exact ih.writerStep hinv.consistent (writerStep?_cases next)
    | .step (.client t), next =>
      obtain ⟨p, p', m₁, hp, hs, rfl⟩ := clientStep?_cases next
      exact ih.clientStep hinv hp hs
  | faults d _ _ ih => exact ih

theorem tallied_of_reaches (h₀ : open? device settings 1 = .ok m₀) (h : Reaches m₀ past m)
    (hw : past.WritesDone) : ∃ p, Tallied past m p := by
  induction h with
  | start =>
    obtain ⟨ring, cache, hring, -, rfl⟩ := open?_eq_ok h₀
    obtain ⟨-, -, -, htail, -⟩ := Ring.new_eq_ok hring
    exact ⟨.idle none,
      { clients := rfl
        appended := rfl
        calls := rfl
        blocks := by
          show 0 = ring.tailOffset / ring.blockSize + 0 + 0
          rw [htail, Nat.zero_div]
        flushes_le := Nat.le_refl _
        le_flushes := Nat.le_refl _
        drained := fun _ => ⟨rfl, fun hb => (by cases hb), fun hw => by cases hw⟩ }⟩
  | @move past m m' move reached next ih =>
    obtain ⟨hbefore, hd⟩ := hw.cons
    obtain ⟨p, ht⟩ := ih hbefore
    obtain ⟨⟨flushed, hinv⟩, -⟩ := inv_of_reaches h₀ reached
    match move, next with
    | .submit t request, next => exact ⟨_, ht.submit next⟩
    | .step .writer, next => exact ht.writerStep hinv.consistent hd (writerStep?_cases next)
    | .step (.client t), next =>
      obtain ⟨q, q', m₁, hq, hs, rfl⟩ := clientStep?_cases next
      obtain ⟨rfl, rfl⟩ := eq_of_clients ht.clients hq
      exact ⟨q', ht.clientStep hinv (sound_of_writesDone h₀ reached hbefore) hq hs⟩
  | faults d _ _ ih =>
    obtain ⟨p, ht⟩ := ih hw
    exact ⟨p, ⟨ht.clients, ht.appended, ht.calls, ht.blocks, ht.flushes_le, ht.le_flushes, ht.drained⟩⟩

/-- Where a log with one client is quiet and no write has failed, it has written the blocks that it fills,
    and one block more for each call with a flush that was given while it did not end with a block.
    Every block that it fills has been written once as a whole, in order. The flushes counted are
    those calls at least, and all calls with a flush at most; they are just those calls if the writer
    had drained all whole blocks whenever one was given. The bytes counted are those of the log. -/
theorem write_amplification (h₀ : open? device settings 1 = .ok m₀) (h : Reaches m₀ past m)
    (hw : past.WritesDone) (hq : Quiet m) :
    m.state.totals.writtenBlocks = past.deviceCalls.countP DeviceCall.isWrite ∧
    m.state.totals.writtenBlocks = m.state.length / Device.blockSize device +
      past.unevenFlushes (Device.blockSize device) ∧
    past.wholeWrites = writes (Device.blockSize device) past.log 0
      (m.state.length / Device.blockSize device) ∧
    past.unevenFlushes (Device.blockSize device) ≤ m.state.totals.flushes ∧
    m.state.totals.flushes ≤ past.flushes ∧
    (past.Drained →
      m.state.totals.flushes = past.unevenFlushes (Device.blockSize device)) ∧
    m.state.totals.appendedBytes = m.state.length := by
  obtain ⟨p, ht⟩ := tallied_of_reaches h₀ h hw
  obtain ⟨⟨flushed, hinv⟩, -, hblockSize⟩ := inv_of_reaches h₀ h
  have hsound := sound_of_writesDone h₀ h hw
  have hc := hinv.consistent
  have hlt : m.state.ring.filled < m.state.ring.blockSize := Nat.not_le.1 (of_decide_eq_false hq.drained)
  have hidle := hq.idle p (by rw [ht.clients]; exact List.mem_cons_self)
  obtain ⟨last, rfl⟩ : ∃ last, p = .idle last := by
    cases p with
    | idle last => exact ⟨last, rfl⟩
    | _ => cases hidle
  have hdrain : m.state.draining = false := by
    by_contra hd
    obtain ⟨u, q, hu, hwaits⟩ := hinv.flushing (Bool.not_eq_false _ ▸ hd)
    obtain ⟨-, rfl⟩ := eq_of_clients ht.clients hu
    cases hwaits
  have hpad := hc.buffers.pad_eq_zero hdrain hsound.failure
  have hwritten : m.written = m.state.totals.writtenBlocks := by
    rw [written, hc.writes.rewritten?_eq_none hlt]
    rfl
  have hnext := hc.nextWrite_eq hlt
  rw [hpad, Bytes.zeros_zero, List.append_nil] at hnext
  have howes : ∀ blockSize length, ClientPoint.owes blockSize length (.idle last) = 0 :=
    fun blockSize length => ClientPoint.owes_eq_zero _ _ (.inl rfl)
  have hcalls := ht.calls
  have hblocks := ht.blocks
  have hwhole := wroteWhole_of_reaches h₀ h
  have hle := ht.le_flushes
  have hsame := ht.drained
  rw [hwritten] at hcalls
  rw [hwritten, howes, hnext, Nat.add_zero, hblockSize] at hblocks
  rw [WroteWhole, wholeBlocks, hnext, Nat.min_self, hblockSize] at hwhole
  rw [howes, Nat.add_zero, hblockSize] at hle
  rw [howes, Nat.add_zero, hblockSize] at hsame
  rw [hc.buffers.length_eq]
  exact ⟨hcalls.symm, hblocks, hwhole, hle, ht.flushes_le, fun hall => (hsame hall).1, ht.appended⟩

/-- A flush and a read that fails, each with one byte behind the last whole block, and a flush with none.
    The block that is left is written filled up twice, and then as a whole. -/
theorem write_amplification_padded : ∃ (m₀ m : Machine Device.Memory) (past : History Device.Memory),
    open? { blockSize := 2, contents := .ofList [], refusesReads := true }
      { bufferBlocks := 2, cacheBlocks := 1 } 1 = .ok m₀ ∧ Reaches m₀ past m ∧ past.WritesDone ∧
    Quiet m ∧ past.Drained ∧ ¬ past.Unfailing ∧ past.calls.map (fun c => c.request) =
      [.append [1, 2, 3], .flush, .read 0 2, .append [4], .flush] ∧
    m.state.totals.writtenBlocks = m.state.length / 2 + 2 ∧ m.state.totals.flushes = 2 ∧
    past.log = [1, 2, 3, 4] ∧ past.wholeWrites = writes 2 past.log 0 2 := by
  let drain : List Move := List.replicate 4 (.step .writer)
  let steps (n : Nat) : List Move := List.replicate n (.step (.client 0))
  let moves : List Move :=
    .submit 0 (.append [1, 2, 3]) :: steps 2 ++ drain ++ .submit 0 .flush :: steps 2 ++ drain ++
      steps 1 ++ .submit 0 (.read 0 2) :: steps 2 ++ drain ++ steps 3 ++
      .submit 0 (.append [4]) :: steps 2 ++ drain ++ .submit 0 .flush :: steps 2
  have h₀ : open? ({ blockSize := 2, contents := .ofList [], refusesReads := true } : Device.Memory)
      { bufferBlocks := 2, cacheBlocks := 1 } 1 = .ok _ := rfl
  refine ⟨_, _, _, h₀, reaches_run? moves (by decide +kernel), by decide +kernel,
    ⟨by decide +kernel, by decide +kernel⟩, by decide +kernel, by decide +kernel, by decide +kernel, ?_⟩
  obtain ⟨-, hwritten, hwhole, -, -, hdrained, -⟩ :=
    write_amplification h₀ (reaches_run? moves (by decide +kernel)) (by decide +kernel)
      ⟨by decide +kernel, by decide +kernel⟩
  exact ⟨hwritten.trans (by decide +kernel), (hdrained (by decide +kernel)).trans (by decide +kernel),
    by decide +kernel, hwhole.trans (congrArg (writes 2 _ 0) (by decide +kernel))⟩

end Machine

end BlockLog
