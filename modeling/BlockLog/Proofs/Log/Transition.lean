import BlockLog.Log.Step
import BlockLog.Proofs.Ring

/-! What a step can do, case by case: from which point a thread comes, under what conditions, to which
    point it goes, and what it changes besides. Everything about steps is derived from these two
    lists. The writer's accounting for a block that has been written is kept apart from the head of
    its loop, which the same step goes on to. -/

namespace BlockLog

/-- Wake a client when a block has been popped: an append always, a flush if the ring has run empty. -/
def ClientPoint.wakeForPop (drained : Bool) (p : ClientPoint) : ClientPoint :=
  if drained then p.wakeForSpace.wakeForFlushed else p.wakeForSpace

namespace Machine

variable {δ : Type}

/-- Bytes are pushed, and the writer hears of it if a whole block is there now. -/
def pushing (m : Machine δ) (rest : Bytes) : Machine δ :=
  { m with
    state := { m.state with ring := (m.state.ring.push rest).1 }
    writer := if (m.state.ring.push rest).1.blockReady then m.writer.wakeForItem else m.writer }

/-- The last block is filled up for a flush, and the writer hears of it. -/
def padding (m : Machine δ) : Machine δ :=
  { m with
    state := { m.state with
      ring := m.state.ring.fillUp.1
      pad := m.state.ring.padding
      draining := true } }.notifyItem

/-- The bytes that an append is about to push, and the offset that it will answer. -/
inductive Feeds (m : Machine δ) : ClientPoint → (data rest : Bytes) → (offset : Nat) → Prop
  | first {data : Bytes} (sound : m.state.failure = none) :
    Feeds m (.appendAdmitted data) data data m.state.ring.endOffset
  | again {data rest : Bytes} {offset : Nat} :
    Feeds m (.appendWaiting data rest offset false) data rest offset

variable [Device δ]

/-- The device after a read of a block, the cache after the fill, and what came of it. -/
def fetching (m : Machine δ) (block : Nat) : Machine δ :=
  let blockSize := m.state.ring.blockSize
  let read := Device.read m.device (block * blockSize) blockSize
  let buffer := (m.state.cache.slotOf block).buffer.overlay read.bytes
  { m with
    device := read.device
    state := { m.state with cache := (m.state.cache.install block buffer read.outcome).1 } }

/-- A step of client `t` from one point to another; `m'` is the machine it leaves, but for its own
    point. -/
inductive ClientStep (m : Machine δ) (t : Nat) : ClientPoint → ClientPoint → Machine δ → Prop
  | admitAppend {data} (free : m.locks.append = none) :
    ClientStep m t (.appendCalled data) (.appendAdmitted data)
      (m.withAppendLock (some (.client t)))
  | refuseAppend {data reason} (unlocked : m.locks.state = none)
    (failed : m.state.failure = some reason) :
    ClientStep m t (.appendAdmitted data) (.idle (some (.error (.degraded reason))))
      (m.withAppendLock none)
  | feedNothing {p data offset} (unlocked : m.locks.state = none) (feeds : Feeds m p data [] offset) :
    ClientStep m t p (.idle (some (.ok (.offset offset))))
      ({ m with state := m.state.countAppended data.length }.withAppendLock none)
  | feedRefused {p data rest offset reason} (unlocked : m.locks.state = none)
    (feeds : Feeds m p data rest offset) (more : rest ≠ [])
    (failed : m.state.failure = some reason) :
    ClientStep m t p (.idle (some (.error (.degraded reason)))) (m.withAppendLock none)
  | feedBlocked {p data rest offset} (unlocked : m.locks.state = none)
    (feeds : Feeds m p data rest offset) (more : rest ≠ []) (sound : m.state.failure = none)
    (full : m.state.ring.free = 0) :
    ClientStep m t p (.appendWaiting data rest offset true) m
  | feedPart {p data rest offset} (unlocked : m.locks.state = none)
    (feeds : Feeds m p data rest offset) (sound : m.state.failure = none)
    (room : 0 < m.state.ring.free) (short : m.state.ring.free < rest.length) :
    ClientStep m t p (.appendWaiting data (rest.drop m.state.ring.free) offset true)
      (m.pushing rest)
  | feedAll {p data rest offset} (unlocked : m.locks.state = none)
    (feeds : Feeds m p data rest offset) (more : rest ≠ []) (sound : m.state.failure = none)
    (fits : rest.length ≤ m.state.ring.free) :
    ClientStep m t p (.idle (some (.ok (.offset offset))))
      ({ m.pushing rest with
          state := (m.pushing rest).state.countAppended data.length }.withAppendLock none)
  | admitFlush {purpose} (free : m.locks.append = none) :
    ClientStep m t (.flushCalled purpose) (.flushAdmitted purpose)
      (m.withAppendLock (some (.client t)))
  | refuseFlush {purpose reason} (unlocked : m.locks.state = none)
    (failed : m.state.failure = some reason) :
    ClientStep m t (.flushAdmitted purpose) (purpose.next (.error (.degraded reason)))
      (m.withAppendLock none)
  | flushNothing {purpose} (unlocked : m.locks.state = none) (sound : m.state.failure = none)
    (empty : m.state.ring.filled = 0) :
    ClientStep m t (.flushAdmitted purpose) (purpose.next (.ok m.state.ring.endOffset))
      (m.withAppendLock none)
  | flushPads {purpose} (unlocked : m.locks.state = none) (sound : m.state.failure = none)
    (some_filled : m.state.ring.filled ≠ 0) :
    ClientStep m t (.flushAdmitted purpose) (.flushWaiting purpose m.state.ring.padding true) m.padding
  | flushWaits {purpose pad} (unlocked : m.locks.state = none) (sound : m.state.failure = none)
    (some_filled : m.state.ring.filled ≠ 0) :
    ClientStep m t (.flushWaiting purpose pad false) (.flushWaiting purpose pad true) m
  | flushFails {purpose pad reason} (unlocked : m.locks.state = none)
    (failed : m.state.failure = some reason) :
    ClientStep m t (.flushWaiting purpose pad false) (purpose.next (.error (.degraded reason)))
      ({ m with state := { m.state with draining := false } }.withAppendLock none)
  | flushDone {purpose pad} (unlocked : m.locks.state = none) (sound : m.state.failure = none)
    (empty : m.state.ring.filled = 0) :
    ClientStep m t (.flushWaiting purpose pad false)
      (purpose.next (.ok (m.state.settleFlush pad).ring.endOffset))
      ({ m with state := { m.state with draining := false }.settleFlush pad }.withAppendLock none)
  | refuseRead {offset len reason} (unlocked : m.locks.state = none)
    (failed : m.state.failure = some reason) :
    ClientStep m t (.readCalled offset len) (.idle (some (.error (.degraded reason)))) m
  | beginRead {offset len} (unlocked : m.locks.state = none) (sound : m.state.failure = none) :
    ClientStep m t (.readCalled offset len) (.reading offset len [])
      (m.withStateLock (some (.client t)))
  | readHit {offset len got block} (more : got.length < len)
    (hit : m.state.cache.get? ((offset + got.length) / m.state.ring.blockSize) = some block) :
    ClientStep m t (.reading offset len got)
      (.reading offset len (got ++ block.slice ((offset + got.length) % m.state.ring.blockSize)
        (segment m.state.ring.blockSize offset len got.length).count))
      { m with state := m.state.countLookup true }
  | readMiss {offset len got block} (more : got.length < len)
    (miss : m.state.cache.get? ((offset + got.length) / m.state.ring.blockSize) = none)
    (free : m.locks.device = none)
    (hblock : block = (offset + got.length) / m.state.ring.blockSize)
    (ok : (Device.read m.device (block * m.state.ring.blockSize) m.state.ring.blockSize).outcome =
      .ok ()) :
    ClientStep m t (.reading offset len got)
      (.reading offset len (got ++
        ((m.state.cache.slotOf block).buffer.overlay
          (Device.read m.device (block * m.state.ring.blockSize) m.state.ring.blockSize).bytes).slice
          ((offset + got.length) % m.state.ring.blockSize)
          (segment m.state.ring.blockSize offset len got.length).count))
      { m.fetching block with state := (m.fetching block).state.countLookup false }
  | readFails {offset len got block e} (more : got.length < len)
    (miss : m.state.cache.get? ((offset + got.length) / m.state.ring.blockSize) = none)
    (free : m.locks.device = none)
    (hblock : block = (offset + got.length) / m.state.ring.blockSize)
    (error : (Device.read m.device (block * m.state.ring.blockSize)
      m.state.ring.blockSize).outcome = .error e) :
    ClientStep m t (.reading offset len got) (.idle (some (.error (.device e))))
      ((m.fetching block).withStateLock none)
  | readDone {offset len got} (complete : len ≤ got.length) :
    ClientStep m t (.reading offset len got) (.idle (some (.ok (.bytes got))))
      (m.withStateLock none)
  | askToStop {flushed} (unlocked : m.locks.state = none) :
    ClientStep m t (.stopping flushed) (.stopped flushed)
      { m with state := { m.state with stop := true } }
  | announceStop {flushed} : ClientStep m t (.stopped flushed) (.joining flushed) m.notifyItem
  | joinDegraded {flushed panicked} (gone : m.writer = .gone panicked)
    (unlocked : m.locks.state = none) (failed : m.state.isDegraded = true) :
    ClientStep m t (.joining flushed)
      (.idle (some (closeReply flushed (joinResult panicked) (.ok ())))) m
  | join {flushed panicked} (gone : m.writer = .gone panicked) (unlocked : m.locks.state = none)
    (sound : m.state.isDegraded = false) :
    ClientStep m t (.joining flushed) (.syncing flushed (joinResult panicked)) m
  | sync {flushed joined} (free : m.locks.device = none) :
    ClientStep m t (.syncing flushed joined)
      (.idle (some (closeReply flushed joined
        ((Device.sync m.device).outcome.mapError LogError.device))))
      { m with device := (Device.sync m.device).device }

theorem feedAppend_cases {m : Machine δ} {p : ClientPoint} {data rest : Bytes} {offset : Nat} (t : Nat)
    (hu : m.locks.state = none) (hf : Feeds m p data rest offset) :
    ∃ p' m₁, ClientStep m t p p' m₁ ∧ m.feedAppend t data rest offset = m₁.setClient t p' := by
  by_cases hr : rest = []
  · subst hr
    exact ⟨_, _, .feedNothing hu hf, rfl⟩
  · cases hfail : m.state.failure with
    | some reason =>
      refine ⟨_, _, .feedRefused hu hf hr hfail, ?_⟩
      simp [feedAppend, LogState.feed, hr, hfail, endAppend]
    | none =>
      by_cases hfree : m.state.ring.free = 0
      · refine ⟨_, _, .feedBlocked hu hf hr hfail hfree, ?_⟩
        simp [feedAppend, LogState.feed, hr, hfail, hfree]
      · have hfeed : m.state.feed rest =
            { state := { m.state with ring := (m.state.ring.push rest).1 }
              progress :=
                if rest.drop (min rest.length m.state.ring.free) = [] then .finished ()
                else .blocked (rest.drop (min rest.length m.state.ring.free))
              notify := (m.state.ring.push rest).1.blockReady } := by
          unfold LogState.feed
          rw [if_neg hr]
          split
          · rename_i h
            rw [hfail] at h
            cases h
          · exact if_neg hfree
        by_cases hshort : m.state.ring.free < rest.length
        · refine ⟨_, _, .feedPart hu hf hfail (by omega) hshort, ?_⟩
          have hleft : rest.drop (min rest.length m.state.ring.free) ≠ [] := by
            rw [Ne, List.drop_eq_nil_iff]
            omega
          rw [feedAppend, hfeed, if_neg hleft, Nat.min_eq_right (by omega), pushing]
          dsimp only
          split <;> rfl
        · refine ⟨_, _, .feedAll hu hf hr hfail (by omega), ?_⟩
          have hleft : rest.drop (min rest.length m.state.ring.free) = [] :=
            List.drop_of_length_le (by omega)
          rw [feedAppend, hfeed, if_pos hleft, pushing]
          dsimp only
          split <;> rfl

theorem leaveFlush_begin_cases {m : Machine δ} (t : Nat) (purpose : Purpose)
    (hu : m.locks.state = none) : ∃ p' m₁, ClientStep m t (.flushAdmitted purpose) p' m₁ ∧
      m.leaveFlush t purpose m.state.beginFlush = m₁.setClient t p' := by
  unfold LogState.beginFlush
  split
  · rename_i hfail
    exact ⟨_, _, .refuseFlush hu hfail, rfl⟩
  · rename_i hfail
    split
    · rename_i hfilled
      exact ⟨_, _, .flushNothing hu hfail hfilled, rfl⟩
    · rename_i hfilled
      refine ⟨_, _, .flushPads hu hfail hfilled, ?_⟩
      simp only [leaveFlush, Ring.fillUp_snd, padding, ↓reduceIte]

theorem leaveFlush_resume_cases {m : Machine δ} (t : Nat) (purpose : Purpose) (pad : Nat)
    (hu : m.locks.state = none) :
    ∃ p' m₁, ClientStep m t (.flushWaiting purpose pad false) p' m₁ ∧
      m.leaveFlush t purpose (m.state.resumeFlush pad) = m₁.setClient t p' := by
  unfold LogState.resumeFlush
  split
  · rename_i h
    exact ⟨_, _, .flushWaits hu h.2 h.1, rfl⟩
  · rename_i h
    dsimp only
    split
    · rename_i hfail
      exact ⟨_, _, .flushFails hu hfail, rfl⟩
    · rename_i hfail
      exact ⟨_, _, .flushDone hu hfail (by_contra fun hne => h ⟨hne, hfail⟩), rfl⟩

theorem stepRead?_cases {m m' : Machine δ} {t offset len : Nat} {got : Bytes}
    (h : m.stepRead? t offset len got = some m') :
    ∃ p' m₁, ClientStep m t (.reading offset len got) p' m₁ ∧ m' = m₁.setClient t p' := by
  unfold stepRead? at h
  split at h
  · rename_i hmore
    dsimp only at h
    split at h
    · rename_i block hhit
      cases h
      exact ⟨_, _, .readHit hmore hhit, rfl⟩
    · rename_i hmiss
      split at h
      · rename_i hfree
        cases h
        cases ho : (Device.read m.device ((offset + got.length) / m.state.ring.blockSize *
          m.state.ring.blockSize) m.state.ring.blockSize).outcome with
        | ok u =>
          refine ⟨_, _, .readMiss hmore hmiss hfree rfl ho, ?_⟩
          simp only [fetchSegment, segment, ho, Cache.install]
          simp only [takeSegment, fetching, ho, Cache.install]
        | error e =>
          refine ⟨_, _, .readFails hmore hmiss hfree rfl ho, ?_⟩
          simp only [fetchSegment, segment, ho, Cache.install]
          simp only [endRead, fetching, ho, Cache.install]
      · cases h
  · rename_i hdone
    cases h
    exact ⟨_, _, .readDone (Nat.not_lt.1 hdone), rfl⟩

/-- Every step of a client is one of those in the list. -/
theorem clientStep?_cases {m m' : Machine δ} {t : Nat} (h : m.clientStep? t = some m') :
    ∃ p p' m₁, m.clients[t]? = some p ∧ ClientStep m t p p' m₁ ∧ m' = m₁.setClient t p' := by
  unfold clientStep? at h
  split at h
  · cases h
  · cases h
  · rename_i data hp
    unfold admitAppend? at h
    split at h <;> cases h
    exact ⟨_, _, _, hp, .admitAppend ‹_›, rfl⟩
  · rename_i data hp
    unfold beginAppend? at h
    split at h
    · rename_i hu
      split at h
      · rename_i hfail
        cases h
        exact ⟨_, _, _, hp, .refuseAppend hu hfail, rfl⟩
      · rename_i hfail
        cases h
        exact ⟨_, feedAppend_cases t hu (.first hfail) |>.imp fun _ h => h.imp fun _ h => ⟨hp, h⟩⟩
    · cases h
  · rename_i data rest offset asleep hp
    unfold resumeAppend? at h
    split at h
    · rename_i hu
      cases h
      rw [hu.2] at hp
      exact ⟨_, feedAppend_cases t hu.1 .again |>.imp fun _ h => h.imp fun _ h => ⟨hp, h⟩⟩
    · cases h
  · rename_i purpose hp
    unfold admitFlush? at h
    split at h <;> cases h
    exact ⟨_, _, _, hp, .admitFlush ‹_›, rfl⟩
  · rename_i purpose hp
    unfold beginFlush? at h
    split at h <;> cases h
    exact ⟨_, leaveFlush_begin_cases t purpose ‹_› |>.imp fun _ h => h.imp fun _ h => ⟨hp, h⟩⟩
  · rename_i purpose pad asleep hp
    unfold resumeFlush? at h
    split at h
    · rename_i hu
      cases h
      rw [hu.2] at hp
      exact ⟨_, leaveFlush_resume_cases t purpose pad hu.1 |>.imp fun _ h =>
        h.imp fun _ h => ⟨hp, h⟩⟩
    · cases h
  · rename_i offset len hp
    unfold beginRead? at h
    split at h
    · rename_i hu
      split at h
      · rename_i hfail
        cases h
        exact ⟨_, _, _, hp, .refuseRead hu hfail, rfl⟩
      · rename_i hfail
        cases h
        exact ⟨_, _, _, hp, .beginRead hu hfail, rfl⟩
    · cases h
  · rename_i offset len got hp
    exact ⟨_, stepRead?_cases h |>.imp fun _ h => h.imp fun _ h => ⟨hp, h⟩⟩
  · rename_i flushed hp
    unfold askToStop? at h
    split at h <;> cases h
    exact ⟨_, _, _, hp, .askToStop ‹_›, rfl⟩
  · rename_i flushed hp
    cases h
    exact ⟨_, _, _, hp, .announceStop, rfl⟩
  · rename_i flushed hp
    unfold join? at h
    split at h
    · rename_i panicked hgone
      split at h
      · rename_i hu
        split at h
        · rename_i hfail
          cases h
          exact ⟨_, _, _, hp, .joinDegraded hgone hu hfail, rfl⟩
        · rename_i hfail
          cases h
          exact ⟨_, _, _, hp, .join hgone hu (Bool.eq_false_iff.2 hfail), rfl⟩
      · cases h
    · cases h
  · rename_i flushed joined hp
    unfold lastSync? at h
    split at h <;> cases h
    exact ⟨_, _, _, hp, .sync ‹_›, rfl⟩

/-! ### The writer -/

/-- The head of the writer's loop. -/
inductive LoopStep (m : Machine δ) : Machine δ → Prop
  | take (ready : m.state.ring.blockReady = true) :
    LoopStep m
      { m with
        state := { m.state.forget (m.state.ring.tailOffset / m.state.ring.blockSize) with
          phase := .writing }
        writer := .staged m.state.ring.tailOffset m.state.ring.oldest }
  | sleep (empty : m.state.ring.blockReady = false) (going : m.state.stop = false) :
    LoopStep m { m with state := { m.state with phase := .waiting }, writer := .asleep }
  | leave (empty : m.state.ring.blockReady = false) (stop : m.state.stop = true) :
    LoopStep m { m with state := { m.state with phase := .waiting }, writer := .leaving false }

omit [Device δ] in
theorem nextBlock_cases (m : Machine δ) : LoopStep m m.nextBlock := by
  unfold nextBlock
  split
  · exact .take ‹_›
  · rename_i h
    cases hs : m.state.stop
    · exact .sleep (Bool.eq_false_iff.2 h) hs
    · exact .leave (Bool.eq_false_iff.2 h) hs

omit [Device δ] in
/-- The writer has accounted for a block that went through, and is at the head of its loop. -/
def accounted (m : Machine δ) (offset : Nat) : Machine δ :=
  let state := (m.state.forget (offset / m.state.ring.blockSize)).popWritten
  let drained : Bool := state.draining ∧ state.ring.filled = 0
  { m with
    state := { state with phase := .waiting }
    writer := .ready
    clients := m.clients.map (ClientPoint.wakeForPop drained) }

omit [Device δ] in
theorem completeWrite_eq (m : Machine δ) (offset : Nat) :
    m.completeWrite offset = (m.accounted offset).nextBlock := by
  unfold completeWrite accounted
  dsimp only
  split
  · rename_i h
    rw [decide_eq_true h]
    have hmap : (m.clients.map ClientPoint.wakeForSpace).map ClientPoint.wakeForFlushed =
        m.clients.map (ClientPoint.wakeForPop true) := List.map_map
    unfold notifyFlushed notifySpace
    dsimp only
    rw [hmap]
    rfl
  · rename_i h
    rw [decide_eq_false h]
    rfl

/-- A step of the writer. -/
inductive WriterStep (m : Machine δ) : Machine δ → Prop
  | loop {m'} (ready : m.writer = .ready) (unlocked : m.locks.state = none) (loop : LoopStep m m') :
    WriterStep m m'
  | enter {offset block} (staged : m.writer = .staged offset block) (free : m.locks.device = none) :
    WriterStep m (m.enterWrite offset block)
  | done {offset block} (inFlight : m.writer = .inFlight offset block)
    (done : (Device.write m.device offset block).outcome = .done) :
    WriterStep m { m.withDeviceLock none with
      device := (Device.write m.device offset block).device
      writer := .wrote offset block (.ok ()) }
  | failed {offset block e} (inFlight : m.writer = .inFlight offset block)
    (failed : (Device.write m.device offset block).outcome = .failed e) :
    WriterStep m { m.withDeviceLock none with
      device := (Device.write m.device offset block).device
      writer := .wrote offset block (.error e) }
  | panicked {offset block} (inFlight : m.writer = .inFlight offset block)
    (panicked : (Device.write m.device offset block).outcome = .panicked) :
    WriterStep m { m.withDeviceLock none with
      device := (Device.write m.device offset block).device
      writer := .leaving true }
  | complete {offset block m'} (wrote : m.writer = .wrote offset block (.ok ()))
    (unlocked : m.locks.state = none) (loop : LoopStep (m.accounted offset) m') : WriterStep m m'
  | fail {offset block e} (wrote : m.writer = .wrote offset block (.error e))
    (unlocked : m.locks.state = none) : WriterStep m (m.failWrite offset e)
  | record {panicked} (leaving : m.writer = .leaving panicked) (unlocked : m.locks.state = none) :
    WriterStep m (m.recordExit panicked)
  | announce {panicked} (announcing : m.writer = .announcing panicked) :
    WriterStep m (m.announceExit panicked)

/-- Every step of the writer is one of those in the list. -/
theorem writerStep?_cases {m m' : Machine δ} (h : m.writerStep? = some m') : WriterStep m m' := by
  unfold writerStep? at h
  split at h
  · rename_i hw
    split at h <;> cases h
    exact .loop hw ‹_› (nextBlock_cases m)
  · cases h
  · rename_i offset block hw
    split at h <;> cases h
    exact .enter hw ‹_›
  · rename_i offset block hw
    cases h
    unfold performWrite
    dsimp only
    cases ho : (Device.write m.device offset block).outcome with
    | done => exact .done hw ho
    | failed e => exact .failed hw ho
    | panicked => exact .panicked hw ho
  · rename_i offset block outcome hw
    split at h
    · rename_i hu
      split at h <;> cases h
      · rw [completeWrite_eq]
        exact .complete hw hu (nextBlock_cases _)
      · exact .fail hw hu
    · cases h
  · rename_i panicked hw
    split at h <;> cases h
    exact .record hw ‹_›
  · rename_i panicked hw
    cases h
    exact .announce hw
  · cases h

/-! ### Calls -/

omit [Device δ] in
/-- A call is given to an idle client of a log that is still open, and a close only when every client
    is idle. -/
theorem submit?_cases {m m' : Machine δ} {t : Nat} {request : Request}
    (h : m.submit? t request = some m') : ∃ last, m.clients[t]? = some (.idle last) ∧
      m.closed = false ∧
      ((request ≠ .close ∧ m' = m.setClient t request.entry) ∨
        (request = .close ∧ (∀ p ∈ m.clients, p.isIdle = true) ∧
          m' = { m with closed := true }.setClient t request.entry)) := by
  unfold submit? at h
  split at h
  · rename_i last hp
    refine ⟨last, hp, ?_⟩
    split at h
    · cases h
    · rename_i hopen
      refine ⟨Bool.eq_false_iff.2 hopen, ?_⟩
      split at h
      · rename_i hclose
        split at h <;> cases h
        rename_i hidle
        exact .inr ⟨hclose, List.all_eq_true.1 hidle, rfl⟩
      · rename_i hne
        cases h
        exact .inl ⟨hne, rfl⟩
  · cases h

omit [Device δ] in
/-- Giving a call moves the client only. -/
theorem submit?_frame {m m' : Machine δ} {t : Nat} {request : Request}
    (h : m.submit? t request = some m') :
    m'.state = m.state ∧ m'.writer = m.writer ∧ m'.device = m.device := by
  obtain ⟨last, -, -, hcase⟩ := submit?_cases h
  rcases hcase with ⟨-, rfl⟩ | ⟨-, -, rfl⟩ <;> exact ⟨rfl, rfl, rfl⟩

end Machine

end BlockLog
