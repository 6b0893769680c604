import BlockLog.Proofs.Log.Faultless
import BlockLog.Proofs.Log.Prompt

/-! A log with one client does what a prompt log does, only later. What it will have done when its
    writer is through with what is buffered can be told at every moment: it is what it has done so
    far, and besides the writes of the blocks that are complete. A step of the writer makes some of
    that so, and does not change it; a step of the client changes it as a part of the call changes a
    prompt log.

        log:           so far ──── client ────▶ so far ──── writer ────▶ so far
                         ┊ writes                 ┊ writes                 ┊ writes
                         ▼                        ▼                        ▼
        prompt log:     due ─── part of a call ──▶ due ══════════════════ due -/

namespace BlockLog

/-- The client may call the device with its next step. -/
def ClientPoint.callsDevice : ClientPoint → Bool
  | .reading .. | .syncing .. => true
  | _ => false

namespace Machine

open LawfulDevice

variable {δ : Type}

/-- The number of the block that the writer is to write next. -/
def nextWrite (m : Machine δ) : Nat :=
  m.state.ring.tailOffset / m.state.ring.blockSize + if m.writer.rewritten?.isSome then 1 else 0

/-- What a log that has asked the device for `calls` has done. A write that has gone through counts,
    also where the writer has still to account for it. -/
def soFar (m : Machine δ) (initial log : Bytes) (calls : List DeviceCall) : Prompt where
  blockSize := m.state.ring.blockSize
  slots := m.state.cache.length
  initial := initial
  log := log
  deviceCalls := calls
  cached b :=
    if m.writer.rewritten? = some (b * m.state.ring.blockSize) then none else m.state.cache.get? b
  written := m.state.totals.writtenBlocks + if m.writer.rewritten?.isSome then 1 else 0
  hits := m.state.totals.hits
  misses := m.state.totals.misses

/-- What it will have done when the writer is through with the blocks that are complete. -/
def due (m : Machine δ) (initial log : Bytes) (calls : List DeviceCall) : Prompt :=
  (m.soFar initial log calls).writeBlocks (log ++ Bytes.zeros m.state.pad) m.nextWrite
    ((log ++ Bytes.zeros m.state.pad).length / m.state.ring.blockSize)

/-- Neither what has been done nor what is to be done is different. -/
structure Undisturbed (m m' : Machine δ) : Prop where
  blockSize : m'.state.ring.blockSize = m.state.ring.blockSize
  tailOffset : m'.state.ring.tailOffset = m.state.ring.tailOffset
  pad : m'.state.pad = m.state.pad
  cache : m'.state.cache = m.state.cache
  rewritten : m'.writer.rewritten? = m.writer.rewritten?
  written : m'.state.totals.writtenBlocks = m.state.totals.writtenBlocks
  hits : m'.state.totals.hits = m.state.totals.hits
  misses : m'.state.totals.misses = m.state.totals.misses

/-- What both are read off, of the state. -/
def doneParts (s : LogState) : Nat × Nat × Nat × Cache × Nat × Nat × Nat :=
  (s.ring.blockSize, s.ring.tailOffset, s.pad, s.cache, s.totals.writtenBlocks, s.totals.hits,
    s.totals.misses)

section

variable {m m' : Machine δ} {initial log : Bytes} {calls : List DeviceCall}

theorem Undisturbed.of_parts (hs : doneParts m'.state = doneParts m.state)
    (hw : m'.writer.rewritten? = m.writer.rewritten?) : Undisturbed m m' := by
  simp only [doneParts, Prod.mk.injEq] at hs
  obtain ⟨hblockSize, htail, hpad, hcache, hwritten, hhits, hmisses⟩ := hs
  exact ⟨hblockSize, htail, hpad, hcache, hw, hwritten, hhits, hmisses⟩

/-- What has been done is read off the cache, the writer and the totals. -/
theorem soFar_congr (hblockSize : m'.state.ring.blockSize = m.state.ring.blockSize)
    (hcache : m'.state.cache = m.state.cache) (hw : m'.writer.rewritten? = m.writer.rewritten?)
    (hwritten : m'.state.totals.writtenBlocks = m.state.totals.writtenBlocks)
    (hhits : m'.state.totals.hits = m.state.totals.hits)
    (hmisses : m'.state.totals.misses = m.state.totals.misses) :
    m'.soFar initial log calls = m.soFar initial log calls := by
  simp only [soFar, hblockSize, hcache, hw, hwritten, hhits, hmisses]

/-- Taking the padding back undoes nothing. -/
theorem soFar_settle (m : Machine δ) (pad : Nat) :
    ({ m with state := { m.state with draining := false }.settleFlush pad }.withAppendLock none).soFar
      initial log calls = m.soFar initial log calls :=
  soFar_congr (LogState.settleFlush_blockSize ..) rfl rfl rfl rfl rfl

theorem Undisturbed.due_eq (h : Undisturbed m m') :
    m'.due initial log calls = m.due initial log calls := by
  rw [due, due, soFar_congr h.blockSize h.cache h.rewritten h.written h.hits h.misses, h.blockSize,
    h.pad, nextWrite, nextWrite, h.blockSize, h.tailOffset, h.rewritten]

theorem due_of_pad (h : m.state.pad = 0) : m.due initial log calls =
    (m.soFar initial log calls).writeBlocks log m.nextWrite
      (log.length / m.state.ring.blockSize) := by
  rw [due, h, Bytes.zeros_zero, List.append_nil]

/-- Bytes that come into the ring will be appended. -/
theorem due_push (hpad : m.state.pad = 0)
    (hnext : m.nextWrite ≤ log.length / m.state.ring.blockSize) (more : Bytes) :
    m.due initial (log ++ more) calls = (m.due initial log calls).append more := by
  have hparts := (m.soFar initial log calls).writeBlocks_writeOut more hnext
  rw [due_of_pad hpad, due_of_pad hpad]
  exact (congrArg (fun σ : Prompt => { σ with log := log ++ more }) hparts).symm

/-- A flush that completes the last block will be a flush. -/
theorem due_padding (hpad : m.state.pad = 0)
    (hgap : m.state.ring.padding = Bytes.gap m.state.ring.blockSize log.length)
    (hnext : m.nextWrite ≤ log.length / m.state.ring.blockSize) :
    m.padding.due initial log calls = (m.due initial log calls).settle := by
  have hparts := (m.soFar initial log calls).writeBlocks_writeOut
    (Bytes.zeros (Bytes.gap m.state.ring.blockSize log.length)) hnext
  have hsame : Undisturbed { m with state := { m.state with pad := m.state.ring.padding } } m.padding :=
    ⟨Ring.fillUp_blockSize _, Ring.fillUp_tailOffset _, rfl, rfl, rewritten?_wakeForItem _, rfl, rfl, rfl⟩
  rw [hsame.due_eq, due_of_pad hpad, due]
  dsimp only
  rw [hgap]
  exact hparts.symm

end

variable [Device δ] [LawfulDevice δ] {initial : Bytes} {m m' m₁ : Machine δ} {a : Account} {t : Nat}
  {p p' : ClientPoint} {calls : List DeviceCall}

/-! ### The ring -/

theorem Consistent.tailOffset_eq (h : Consistent initial m a) :
    m.state.ring.tailOffset / m.state.ring.blockSize * m.state.ring.blockSize =
      m.state.ring.tailOffset :=
  Nat.div_mul_cancel h.buffers.ring.offset_aligned

/-- A block that starts where the ring does is the first block of the ring. -/
theorem Consistent.tailOffset_eq_mul_iff (h : Consistent initial m a) (b : Nat) :
    m.state.ring.tailOffset = b * m.state.ring.blockSize ↔
      b = m.state.ring.tailOffset / m.state.ring.blockSize := by
  constructor
  · intro hb
    rw [hb, Nat.mul_div_cancel _ h.buffers.ring.blockSize_pos]
  · rintro rfl
    exact h.tailOffset_eq.symm

/-- A whole block in the ring is one of those that are complete. -/
theorem Consistent.first_lt (h : Consistent initial m a)
    (hfilled : m.state.ring.blockSize ≤ m.state.ring.filled) :
    m.state.ring.tailOffset / m.state.ring.blockSize <
      (a.log ++ Bytes.zeros m.state.pad).length / m.state.ring.blockSize := by
  have hend := h.buffers.endOffset
  rw [Nat.lt_iff_add_one_le, Nat.le_div_iff_mul_le h.buffers.ring.blockSize_pos, List.length_append,
    Bytes.length_zeros, Nat.add_mul, h.tailOffset_eq]
  omega

/-- The writer never gets ahead of the blocks that are complete. -/
theorem Consistent.nextWrite_le (h : Consistent initial m a) :
    m.nextWrite ≤ (a.log ++ Bytes.zeros m.state.pad).length / m.state.ring.blockSize := by
  have hend := h.buffers.endOffset
  unfold nextWrite
  split
  · rename_i hsome
    refine h.first_lt (Nat.not_lt.1 fun hlt => ?_)
    rw [h.writes.rewritten?_eq_none hlt] at hsome
    cases hsome
  · refine Nat.div_le_div_right ?_
    rw [List.length_append, Bytes.length_zeros]
    omega

/-- Where less than a block is buffered, the writer has written all of them. -/
theorem Consistent.nextWrite_eq (h : Consistent initial m a)
    (hlt : m.state.ring.filled < m.state.ring.blockSize) :
    m.nextWrite = (a.log ++ Bytes.zeros m.state.pad).length / m.state.ring.blockSize := by
  have hend := h.buffers.endOffset
  have htail := h.tailOffset_eq
  symm
  rw [nextWrite, h.writes.rewritten?_eq_none hlt, List.length_append, Bytes.length_zeros, ← hend,
    Nat.div_eq_iff h.buffers.ring.blockSize_pos]
  simp only [Option.isSome_none, Bool.false_eq_true, ↓reduceIte, Nat.add_zero]
  omega

/-- Where less than a block is buffered, everything has been done. -/
theorem Consistent.due_eq_soFar (h : Consistent initial m a)
    (hlt : m.state.ring.filled < m.state.ring.blockSize) :
    m.due initial a.log calls = m.soFar initial a.log calls := by
  rw [due, ← h.nextWrite_eq hlt, Prompt.writeBlocks_self]

/-- The oldest block is that of the log, with the padding of a flush behind it. -/
theorem Consistent.oldest_eq (h : Consistent initial m a)
    (hfilled : m.state.ring.blockSize ≤ m.state.ring.filled) :
    m.state.ring.oldest = (a.log ++ Bytes.zeros m.state.pad).block m.state.ring.blockSize
      (m.state.ring.tailOffset / m.state.ring.blockSize) := by
  rw [Ring.oldest_eq_take_queue h.buffers.ring hfilled, h.buffers.queue, Bytes.block,
    h.tailOffset_eq, Bytes.slice]

theorem Consistent.nextWrite_le_of_pad (h : Consistent initial m a) (hpad : m.state.pad = 0) :
    m.nextWrite ≤ a.log.length / m.state.ring.blockSize := by
  have hle := h.nextWrite_le
  rwa [hpad, Bytes.zeros_zero, List.append_nil] at hle

theorem Consistent.padding_eq (h : Consistent initial m a) (hpad : m.state.pad = 0) :
    m.state.ring.padding = Bytes.gap m.state.ring.blockSize a.log.length := by
  obtain ⟨first, hfirst⟩ := h.buffers.ring.offset_aligned
  have hend := h.buffers.endOffset
  rw [hpad, Nat.add_zero] at hend
  rw [Ring.padding_eq_gap, ← hend, hfirst, Bytes.gap, Bytes.gap, Nat.mul_add_mod]

/-! ### Steps of the writer -/

/-- Taking a block drops a copy of it from the cache, which writing it would do anyway. -/
theorem LoopStep.due_eq (h : Consistent initial m a) (hw : m.writer.rewritten? = none)
    (hl : LoopStep m m') : m'.due initial a.log calls = m.due initial a.log calls := by
  cases hl with
  | take ready =>
    have hlt := h.first_lt (of_decide_eq_true ready)
    have hnext : m.nextWrite = m.state.ring.tailOffset / m.state.ring.blockSize := by
      rw [nextWrite, hw]
      rfl
    have hdropped := (m.soFar initial a.log calls).writeBlocks_cached
      (a.log ++ Bytes.zeros m.state.pad) m.nextWrite
      ((a.log ++ Bytes.zeros m.state.pad).length / m.state.ring.blockSize)
      (m.state.forget (m.state.ring.tailOffset / m.state.ring.blockSize)).cache.get? fun b => by
        rw [hnext, LogState.forget, Cache.get?_evict h.caches.valid]
        simp only [soFar, hw]
        by_cases hb : b = m.state.ring.tailOffset / m.state.ring.blockSize
        · exact .inl (by omega)
        · exact .inr (by simp [hb])
    rw [due, due, ← hdropped, hnext]
    simp only [soFar, hw, LogState.forget, Cache.length_evict]
    rfl
  | sleep | leave =>
    exact Undisturbed.due_eq (.of_parts rfl hw.symm)

/-- The device call makes the write of the block so. -/
theorem soFar_write (h : Consistent initial m a) {offset : Nat} {block : Bytes}
    (hw : m.writer = .inFlight offset block) (hd : m'.state = m.state)
    (hw' : m'.writer = .wrote offset block (.ok ())) :
    m'.soFar initial a.log (calls ++ [.write offset block .done]) =
      (m.soFar initial a.log calls).writeBlocks (a.log ++ Bytes.zeros m.state.pad)
        (m.state.ring.tailOffset / m.state.ring.blockSize)
        (m.state.ring.tailOffset / m.state.ring.blockSize + 1) := by
  have hwrites := h.writes
  rw [hw] at hwrites
  obtain ⟨rfl, rfl, hfilled⟩ := hwrites
  have hnone : m.writer.rewritten? = none := by rw [hw]; rfl
  have hsome : m'.writer.rewritten? = some m.state.ring.tailOffset := by rw [hw']; rfl
  apply Prompt.ext
  case deviceCalls =>
    simp only [soFar, Prompt.writeBlocks]
    rw [writes_cons _ (Nat.lt_succ_self _), writes_self, ← h.oldest_eq hfilled, h.tailOffset_eq]
  case cached =>
    funext b
    simp only [soFar, Prompt.writeBlocks, hd, hsome, hnone, Option.some.injEq, h.tailOffset_eq_mul_iff]
    grind
  all_goals simp [soFar, Prompt.writeBlocks, hd, hnone, hsome]

/-- The ring lets go of the block that has been written. -/
theorem nextWrite_accounted (h : Consistent initial m a) {offset : Nat} {block : Bytes}
    (hw : m.writer = .wrote offset block (.ok ())) : (m.accounted offset).nextWrite = m.nextWrite := by
  have hsome : m.writer.rewritten? = some offset := by rw [hw]; rfl
  rw [nextWrite, nextWrite, hsome]
  show (m.state.ring.tailOffset + m.state.ring.blockSize) / m.state.ring.blockSize + 0 = _ + 1
  rw [Nat.add_div_right _ h.buffers.ring.blockSize_pos]

/-- Accounting for a block that has been written changes nothing any more. -/
theorem accounted_due_eq (h : Consistent initial m a) {offset : Nat} {block : Bytes}
    (hw : m.writer = .wrote offset block (.ok ())) :
    (m.accounted offset).due initial a.log calls = m.due initial a.log calls := by
  have hwrites := h.writes
  rw [hw] at hwrites
  obtain ⟨rfl, -⟩ := hwrites
  have hsome : m.writer.rewritten? = some m.state.ring.tailOffset := by rw [hw]; rfl
  have hsoFar : (m.accounted m.state.ring.tailOffset).soFar initial a.log calls =
      m.soFar initial a.log calls := by
    apply Prompt.ext
    case cached =>
      funext b
      show (m.state.cache.evict _).1.get? b = _
      rw [Cache.get?_evict h.caches.valid]
      simp only [soFar, hsome, Option.some.injEq, h.tailOffset_eq_mul_iff]
    case slots => exact Cache.length_evict ..
    case written =>
      show m.state.totals.writtenBlocks + 1 + 0 = m.state.totals.writtenBlocks + _
      rw [hsome]
      rfl
    all_goals rfl
  rw [due, due, hsoFar, nextWrite_accounted h hw]
  rfl

/-- A step of the writer does part of what is to be done. -/
theorem WriterStep.due_eq (h : Consistent initial m a) (hsound : Sound m)
    (hd : ∀ call, m.deviceCall? (.step .writer) = some call → call.Succeeded)
    (hs : WriterStep m m') :
    m'.due initial a.log (calls ++ (m.deviceCall? (.step .writer)).toList) =
      m.due initial a.log calls := by
  have hquiet : m.writer.isInFlight = false →
      calls ++ (m.deviceCall? (.step .writer)).toList = calls := by
    intro hnot
    rw [deviceCall?_of_not_inFlight hnot]
    exact List.append_nil _
  cases hs with
  | loop ready _ loop =>
    rw [hquiet (by rw [ready]; rfl)]
    exact loop.due_eq h (by rw [ready]; rfl)
  | enter staged =>
    rw [hquiet (by rw [staged]; rfl)]
    exact Undisturbed.due_eq (.of_parts rfl (by rw [staged]; rfl))
  | @done offset block inFlight done =>
    have hfilled : m.state.ring.blockSize ≤ m.state.ring.filled := by
      have hwrites := h.writes
      rw [inFlight] at hwrites
      exact hwrites.2.2
    have hnext : m.nextWrite = m.state.ring.tailOffset / m.state.ring.blockSize := by
      rw [nextWrite, inFlight]
      rfl
    have hparts := (m.soFar initial a.log calls).writeBlocks_writeBlocks
      (a.log ++ Bytes.zeros m.state.pad) (Nat.le_succ _) (h.first_lt hfilled)
    rw [deviceCall?_of_inFlight inFlight, done, due, due, hnext, ← hparts]
    exact congrArg (fun σ : Prompt => σ.writeBlocks _ _ _) (soFar_write h inFlight rfl rfl)
  | failed inFlight failed =>
    have hdone : _ = WriteOutcome.done := hd _ (deviceCall?_of_inFlight inFlight)
    rw [failed] at hdone
    cases hdone
  | panicked inFlight panicked =>
    have hdone : _ = WriteOutcome.done := hd _ (deviceCall?_of_inFlight inFlight)
    rw [panicked] at hdone
    cases hdone
  | complete wrote _ loop =>
    rw [hquiet (by rw [wrote]; rfl), loop.due_eq (h.account wrote) rfl]
    exact accounted_due_eq h wrote
  | fail wrote => exact absurd wrote (hsound.wrote _ _ _)
  | record leaving =>
    rw [hquiet (by rw [leaving]; rfl)]
    exact Undisturbed.due_eq (.of_parts rfl (by rw [leaving]; rfl))
  | announce announcing =>
    rw [hquiet (by rw [announcing]; rfl)]
    exact Undisturbed.due_eq (.of_parts rfl (by rw [announcing]; rfl))

/-! ### Steps of the client -/

omit [LawfulDevice δ] in
theorem deviceCall?_client_eq_none (hp : m.clients[t]? = some p) (hquiet : p.callsDevice = false) :
    m.deviceCall? (.step (.client t)) = none := by
  cases p with
  | reading | syncing => cases hquiet
  | _ => simp only [deviceCall?, hp]

omit [Device δ] [LawfulDevice δ] in
/-- With no write to account for, everything in the cache counts. -/
theorem soFar_cached {log : Bytes} (hw : m.writer.rewritten? = none) :
    (m.soFar initial log calls).cached = m.state.cache.get? := by
  funext b
  simp [soFar, hw]

omit [Device δ] [LawfulDevice δ] in
/-- A block found in the cache. -/
theorem soFar_hit {log : Bytes} (hw : m.writer.rewritten? = none) {b : Nat} {block : Bytes}
    (hit : m.state.cache.get? b = some block) :
    { m with state := m.state.countLookup true }.soFar initial log calls =
      (m.soFar initial log calls).lookup b := by
  rw [Prompt.lookup, (congrFun (soFar_cached hw) b).trans hit]
  rfl

/-- A block fetched from a device that has the whole log. -/
theorem soFar_miss (h : Consistent initial m a) (hw : m.writer.rewritten? = none)
    (hdurable : a.durable = a.log.length) {b : Nat} (hmiss : m.state.cache.get? b = none)
    (hok : (Device.read m.device (b * m.state.ring.blockSize) m.state.ring.blockSize).outcome =
      .ok ()) :
    { m.fetching b with state := (m.fetching b).state.countLookup false }.soFar initial a.log
        (calls ++ [DeviceCall.read (b * m.state.ring.blockSize) m.state.ring.blockSize (.ok ())]) =
      (m.soFar initial a.log calls).lookup b := by
  have hbuffer := (h.filled_eq b hok).1
  rw [h.lands.contents_eq_image hdurable] at hbuffer
  have hfetched : ∀ b', (m.fetching b).state.cache.get? b' =
      if b' % m.state.cache.length = b % m.state.cache.length then
        if b' = b then
          some ((Bytes.image m.state.ring.blockSize a.log initial).block m.state.ring.blockSize b)
        else none
      else m.state.cache.get? b' := by
    intro b'
    simp only [fetching, hok, hbuffer]
    exact Cache.get?_install_ok _ _ h.caches.valid b'
  rw [Prompt.lookup, soFar_cached hw, hmiss]
  apply Prompt.ext
  case cached =>
    funext b'
    refine (congrFun (soFar_cached ?_) b').trans (hfetched b')
    exact hw
  case slots => exact Cache.length_install ..
  all_goals rfl

/-- What will have been done when client `t` has gone from `m` to `m₁`. -/
def dueNext (m m₁ : Machine δ) (t : Nat) (initial log : Bytes) (calls : List DeviceCall) : Prompt :=
  m₁.due initial (log ++ m.pushes (.step (.client t)))
    (calls ++ (m.deviceCall? (.step (.client t))).toList)

section

variable {log : Bytes}

omit [LawfulDevice δ] in
/-- A step that neither pushes nor calls the device. -/
theorem dueNext_eq (hpush : m.pushes (.step (.client t)) = [])
    (hcall : m.deviceCall? (.step (.client t)) = none) :
    m.dueNext m₁ t initial log calls = m₁.due initial log calls := by
  rw [dueNext, hpush, hcall, List.append_nil, Option.toList_none, List.append_nil]

omit [LawfulDevice δ] in
/-- Such a step that leaves the rest alone, too. -/
theorem dueNext_quiet (hpush : m.pushes (.step (.client t)) = [])
    (hcall : m.deviceCall? (.step (.client t)) = none) (hsame : Undisturbed m m₁) :
    m.dueNext m₁ t initial log calls = m.due initial log calls :=
  (dueNext_eq hpush hcall).trans hsame.due_eq

omit [LawfulDevice δ] in
/-- A step with which the call only gets on. -/
theorem after_quiet (happend : p.isAppending = false) (hcalls : p.callsDevice = false)
    (hp : m.clients[t]? = some p) (hsame : Undisturbed m m₁)
    (hafter : ∀ ρ : Prompt, ρ.after p' = ρ.after p) :
    (m.dueNext m₁ t initial log calls).after p' = (m.due initial log calls).after p := by
  rw [dueNext_quiet (pushes_eq_nil hp (.inl happend)) (deviceCall?_client_eq_none hp hcalls) hsame,
    hafter]

end

omit [Device δ] [LawfulDevice δ] in
theorem Feeds.after_eq {data rest : Bytes} {offset : Nat} (hf : Feeds m p data rest offset)
    (ρ : Prompt) : ρ.after p = ρ.append rest := by
  cases hf <;> rfl

omit [LawfulDevice δ] in
theorem deviceCall?_of_feeds (hp : m.clients[t]? = some p) {data rest : Bytes} {offset : Nat}
    (hf : Feeds m p data rest offset) : m.deviceCall? (.step (.client t)) = none :=
  deviceCall?_client_eq_none hp (by cases hf <;> rfl)

/-- Bytes of an append come into the ring. -/
theorem due_feed (h : Inv initial m a) (hsound : Sound m) (hp : m.clients[t]? = some p)
    {data rest : Bytes} {offset : Nat} (hf : Feeds m p data rest offset)
    (hsame : Undisturbed (m.pushing rest) m₁) :
    m.dueNext m₁ t initial a.log calls =
      (m.due initial a.log calls).append (rest.take m.state.ring.free) := by
  have hring := h.consistent.buffers.ring
  have hpad := h.consistent.buffers.pad_eq_zero (h.feeds hp hf).2.1 hsound.failure
  have hpushed : Undisturbed m (m.pushing rest) := by
    refine ⟨Ring.push_blockSize hring rest, Ring.push_tailOffset hring rest, rfl, rfl, ?_, rfl, rfl, rfl⟩
    rcases pushing_writer m rest with ⟨hw, -⟩ | hw <;> rw [hw]
    exact rewritten?_wakeForItem _
  rw [dueNext, pushes_of_feeds hp hf hsound.failure, deviceCall?_of_feeds hp hf, hsame.due_eq,
    hpushed.due_eq, ← due_push hpad (h.consistent.nextWrite_le_of_pad hpad), Option.toList_none,
    List.append_nil]

/-- A block comes to a read. -/
theorem after_segment (h : Consistent initial m a) {block got : Bytes} {offset len : Nat}
    (hlen : block.length = m.state.ring.blockSize) (hmore : got.length < len) :
    ((m.soFar initial a.log calls).lookup ((offset + got.length) / m.state.ring.blockSize)).after
        (.reading offset len (got ++ block.slice ((offset + got.length) % m.state.ring.blockSize)
          (segment m.state.ring.blockSize offset len got.length).count)) =
      (m.soFar initial a.log calls).after (.reading offset len got) :=
  Prompt.after_reading _ h.buffers.ring.blockSize_pos hmore
    (length_append_segment offset h.buffers.ring.blockSize_pos hlen (Nat.le_of_lt hmore)).1

/-- A client that is alone reads with the whole log on the device. -/
theorem Inv.durable_eq_of_isReading (h : Inv initial m a) (hone : m.clients.length = 1)
    (hp : m.clients[t]? = some p) (hread : p.isReading = true) : a.durable = a.log.length := by
  have hserves := h.serves t p hp
  have hflushed := h.consistent.flushed_le
  have hdurable := h.consistent.lands.durable_le
  have hall : a.flushed = a.log.length := by
    cases p with
    | readCalled => exact hserves.2 hone
    | reading => exact hserves.1.2 hone
    | _ => cases hread
  omega

/-- Where a step leaves less than a block in the ring, everything has been done. -/
theorem ClientStep.dueNext_eq_soFar (h : Inv initial m a) (hp : m.clients[t]? = some p)
    (hs : ClientStep m t p p' m₁) (hlt : m₁.state.ring.filled < m₁.state.ring.blockSize) :
    m.dueNext m₁ t initial a.log calls =
      m₁.soFar initial (a.log ++ m.pushes (.step (.client t)))
        (calls ++ (m.deviceCall? (.step (.client t))).toList) := by
  obtain ⟨a', hserved⟩ := hs.served h hp
  rw [dueNext, ← hserved.log]
  exact hserved.consistent.due_eq_soFar hlt

/-- A step of an append. -/
theorem ClientStep.due_after_append (h : Inv initial m a) (hsound : Sound m)
    (hp : m.clients[t]? = some p) (happend : p.isAppending = true) (hs : ClientStep m t p p' m₁) :
    (m.dueNext m₁ t initial a.log calls).after p' = (m.due initial a.log calls).after p := by
  cases hs with
  | refuseAppend _ failed => exact absurd failed hsound.not_failed
  | feedRefused _ _ _ failed => exact absurd failed hsound.not_failed
  | feedNothing _ feeds =>
    refine Eq.trans (dueNext_quiet (pushes_of_feeds_eq_nil hp feeds (.inl rfl))
      (deviceCall?_of_feeds hp feeds) (.of_parts rfl rfl)) ?_
    rw [feeds.after_eq, Prompt.append_nil]
  | @feedBlocked _ data rest offset _ feeds _ _ full =>
    rw [feeds.after_eq]
    exact congrArg (Prompt.append · rest) (dueNext_quiet
      (pushes_of_feeds_eq_nil hp feeds (.inr full)) (deviceCall?_of_feeds hp feeds) (.of_parts rfl rfl))
  | feedPart _ feeds =>
    rw [due_feed h hsound hp feeds (.of_parts rfl rfl), feeds.after_eq]
    exact (Prompt.append_append ..).trans (congrArg _ (List.take_append_drop ..))
  | feedAll _ feeds _ _ fits =>
    refine Eq.trans (due_feed h hsound hp feeds (.of_parts rfl rfl)) ?_
    rw [feeds.after_eq, List.take_of_length_le fits]
  | _ => cases happend

/-- A step of a flush that holds the append lock. -/
theorem ClientStep.due_after_flush (h : Inv initial m a) (hsound : Sound m)
    (hp : m.clients[t]? = some p) (hheld : p.holdsAppend = true) (happend : p.isAppending = false)
    (hs : ClientStep m t p p' m₁) :
    (m.dueNext m₁ t initial a.log calls).after p' = (m.due initial a.log calls).after p := by
  have hc := h.consistent
  have hserves := h.serves t p hp
  have hpush := pushes_eq_nil hp (.inl happend)
  cases hs with
  | refuseFlush _ failed | flushFails _ failed => exact absurd failed hsound.not_failed
  | @flushNothing purpose _ sound empty =>
    have hend := hc.buffers.endOffset_eq (h.draining_eq_false hp rfl rfl) sound
    have hwhole : m.state.ring.blockSize ∣ a.log.length := by
      rw [← hend, Ring.endOffset, empty]
      exact hc.buffers.ring.offset_aligned
    refine Eq.trans (congrArg (Prompt.after · _) (dueNext_quiet hpush
      (deviceCall?_client_eq_none hp rfl) (.of_parts rfl rfl))) ?_
    refine (Prompt.after_next _ purpose hend).trans ?_
    exact congrArg (Prompt.proceed · purpose) (Prompt.settle_of_dvd _ hwhole).symm
  | flushPads _ sound =>
    have hpad := hc.buffers.pad_eq_zero (h.draining_eq_false hp rfl rfl) sound
    rw [dueNext_eq hpush (deviceCall?_client_eq_none hp rfl),
      due_padding hpad (hc.padding_eq hpad) (hc.nextWrite_le_of_pad hpad)]
    rfl
  | flushWaits => exact after_quiet rfl rfl hp (.of_parts rfl rfl) fun _ => rfl
  | @flushDone purpose pad unlocked sound empty =>
    obtain ⟨rfl, -⟩ := hserves
    have hpos := hc.buffers.ring.blockSize_pos
    have hlt := hc.buffers.settle_filled_lt empty
    rw [dueNext_eq_soFar h hp (.flushDone unlocked sound empty) hlt, hc.due_eq_soFar (by omega),
      hpush, deviceCall?_client_eq_none hp rfl, List.append_nil, Option.toList_none,
      List.append_nil, soFar_settle]
    exact Prompt.after_next _ purpose (hc.buffers.endOffset_settle empty)
  | feedNothing _ feeds | feedRefused _ feeds | feedBlocked _ feeds | feedPart _ feeds
  | feedAll _ feeds => cases feeds <;> cases happend
  | refuseAppend => cases happend
  | _ => cases hheld

/-- A step of a read whose flush is over, with the whole log on the device. -/
theorem ClientStep.due_after_read (h : Inv initial m a) (hsound : Sound m)
    (hlt : m.state.ring.filled < m.state.ring.blockSize) (hdurable : a.durable = a.log.length)
    (hd : ∀ call, m.deviceCall? (.step (.client t)) = some call → call.Succeeded)
    (hp : m.clients[t]? = some p) (hread : p.isReading = true) (hs : ClientStep m t p p' m₁) :
    (m.dueNext m₁ t initial a.log calls).after p' = (m.due initial a.log calls).after p := by
  have hc := h.consistent
  have hw := hc.writes.rewritten?_eq_none hlt
  have hsoFar : m₁.state.ring.filled < m₁.state.ring.blockSize →
      m.dueNext m₁ t initial a.log calls = _ := hs.dueNext_eq_soFar h hp
  cases hs with
  | refuseRead _ failed => exact absurd failed hsound.not_failed
  | beginRead => exact after_quiet rfl rfl hp (.of_parts rfl rfl) fun _ => rfl
  | readHit more hit =>
    have hlen := (Cache.length_get? hc.caches.valid hit).trans hc.caches.blockSize_eq
    have hcall : m.deviceCall? (.step (.client t)) = none := by
      simp only [deviceCall?, hp, hit]
      rw [if_neg (by simp)]
    rw [hsoFar hlt, hc.due_eq_soFar hlt, pushes_eq_nil hp (.inl rfl), hcall, List.append_nil,
      Option.toList_none, List.append_nil, soFar_hit hw hit]
    exact after_segment hc hlen more
  | readMiss more miss free hblock ok =>
    subst hblock
    obtain ⟨hfilled, hlen⟩ := hc.filled_eq _ ok
    rw [← hfilled] at hlen
    rw [hsoFar hlt, hc.due_eq_soFar hlt, pushes_eq_nil hp (.inl rfl),
      deviceCall?_of_reading hp more miss, ok, List.append_nil, Option.toList_some,
      soFar_miss hc hw hdurable miss ok]
    exact after_segment hc hlen more
  | readFails more miss free hblock error =>
    have hok : _ = Except.ok () := hd _ (deviceCall?_of_reading hp more miss)
    rw [← hblock, error] at hok
    cases hok
  | @readDone offset len got complete =>
    have hcall : m.deviceCall? (.step (.client t)) = none := by
      simp only [deviceCall?, hp]
      rw [if_neg fun h => absurd h.1 (Nat.not_lt.2 complete)]
    refine Eq.trans (dueNext_quiet (pushes_eq_nil hp (.inl rfl)) hcall (.of_parts rfl rfl)) ?_
    rw [Prompt.after, Nat.sub_eq_zero_of_le complete, Prompt.lookups_zero]
  | feedNothing _ feeds | feedRefused _ feeds | feedBlocked _ feeds | feedPart _ feeds
  | feedAll _ feeds => cases feeds <;> cases hread
  | _ => cases hread

/-- A step of a close whose flush is over. -/
theorem ClientStep.due_after_close (h : Inv initial m a) (hsound : Sound m)
    (hd : ∀ call, m.deviceCall? (.step (.client t)) = some call → call.Succeeded)
    (hp : m.clients[t]? = some p) (hheld : p.holdsAppend = false) (hclosing : p.isClosing = true)
    (hs : ClientStep m t p p' m₁) :
    (m.dueNext m₁ t initial a.log calls).after p' = (m.due initial a.log calls).after p := by
  have hc := h.consistent
  have hserves := h.serves t p hp
  cases hs with
  | admitFlush | askToStop | join => exact after_quiet rfl rfl hp (.of_parts rfl rfl) fun _ => rfl
  | announceStop => exact after_quiet rfl rfl hp (.of_parts rfl (rewritten?_wakeForItem _)) fun _ => rfl
  | joinDegraded _ _ failed =>
    rw [LogState.isDegraded, hsound.failure] at failed
    cases failed
  | @sync flushed joined free =>
    have hok : _ = Except.ok () := hd _ (deviceCall?_of_syncing hp)
    have hlt : m.state.ring.filled < m.state.ring.blockSize := by
      cases flushed with
      | ok => exact (hserves.1.drained rfl).filled_lt
      | error e => exact absurd hsound.failure (hserves.1.failed e rfl).1
    rw [dueNext_eq_soFar h hp (.sync free) hlt, hc.due_eq_soFar hlt, pushes_eq_nil hp (.inl rfl),
      deviceCall?_of_syncing hp, hok, List.append_nil]
    rfl
  | feedNothing _ feeds | feedRefused _ feeds | feedBlocked _ feeds | feedPart _ feeds
  | feedAll _ feeds => cases feeds <;> cases hclosing
  | refuseFlush | flushNothing | flushPads | flushWaits | flushFails | flushDone => cases hheld
  | _ => cases hclosing

/-- A step of the client changes what is due as a part of its call changes a prompt log. -/
theorem ClientStep.due_after (h : Inv initial m a) (hsound : Sound m)
    (hread : p.isReading = true →
      m.state.ring.filled < m.state.ring.blockSize ∧ a.durable = a.log.length)
    (hd : ∀ call, m.deviceCall? (.step (.client t)) = some call → call.Succeeded)
    (hp : m.clients[t]? = some p) (hs : ClientStep m t p p' m₁) :
    (m.dueNext m₁ t initial a.log calls).after p' = (m.due initial a.log calls).after p := by
  cases p with
  | idle => cases hs with
    | feedNothing _ feeds | feedRefused _ feeds | feedBlocked _ feeds | feedPart _ feeds
    | feedAll _ feeds => cases feeds
  | appendCalled => cases hs with
    | admitAppend => exact after_quiet rfl rfl hp (.of_parts rfl rfl) fun _ => rfl
    | feedNothing _ feeds | feedRefused _ feeds | feedBlocked _ feeds | feedPart _ feeds
    | feedAll _ feeds => cases feeds
  | flushCalled => cases hs with
    | admitFlush => exact after_quiet rfl rfl hp (.of_parts rfl rfl) fun _ => rfl
    | feedNothing _ feeds | feedRefused _ feeds | feedBlocked _ feeds | feedPart _ feeds
    | feedAll _ feeds => cases feeds
  | appendAdmitted | appendWaiting => exact hs.due_after_append h hsound hp rfl
  | flushAdmitted | flushWaiting => exact hs.due_after_flush h hsound hp rfl rfl
  | readCalled | reading =>
    obtain ⟨hlt, hdurable⟩ := hread rfl
    exact hs.due_after_read h hsound hlt hdurable hd hp rfl
  | stopping | stopped | joining | syncing => exact hs.due_after_close h hsound hd hp rfl rfl

end Machine

end BlockLog
