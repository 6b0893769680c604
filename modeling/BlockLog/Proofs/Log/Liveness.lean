import BlockLog.Proofs.Log.Preservation

/-! Nobody waits for a notification that has been missed, and so somebody can always go on.

    A writer sleeps only while there is no whole block for it and nobody has asked it to stop, an
    append only while there is no space, a flush only while something is buffered; and while one of
    the two sleeps, the writer has not left for good, so it will wake them. -/

namespace BlockLog

/-- The writer is out of its loop. -/
def WriterPoint.isLeaving : WriterPoint → Bool
  | .leaving _ | .announcing _ | .gone _ => true
  | _ => false

/-- The client has asked the writer to stop. -/
def ClientPoint.hasStopped : ClientPoint → Bool
  | .stopped _ | .joining _ | .syncing _ _ => true
  | _ => false

theorem ClientPoint.Woken.hasStopped {p q : ClientPoint} (h : ClientPoint.Woken p q) :
    q.hasStopped = p.hasStopped := by
  cases h <;> rfl

namespace Machine

variable {δ : Type}

/-- What a client that sleeps or waits for the writer to be gone waits for. -/
def Waits (m : Machine δ) : ClientPoint → Prop
  | .appendWaiting _ _ _ true => m.state.ring.free = 0 ∧ ∀ panicked, m.writer ≠ .gone panicked
  | .flushWaiting _ _ true => m.state.ring.filled ≠ 0 ∧ ∀ panicked, m.writer ≠ .gone panicked
  | .stopped _ | .joining _ | .syncing _ _ => m.state.stop = true
  | _ => True

/-- Every wait has something that will end it. -/
structure Live (m : Machine δ) : Prop where
  failed : m.state.failure ≠ none → m.writer.isLeaving = true
  left : m.writer.isLeaving = true →
    m.writer = .leaving true ∨ m.state.failure ≠ none ∨ m.state.stop = true
  asleep : m.writer = .asleep → m.state.ring.blockReady = false ∧
    (m.state.stop = true → ∃ (t : Nat) (flushed : Except LogError Unit),
      m.clients[t]? = some (.stopped flushed))
  closed : m.state.stop = true → m.closed = true
  stopping : m.state.stop = true → ∀ (t : Nat) (p : ClientPoint), m.clients[t]? = some p →
    p.isIdle = true ∨ p.hasStopped = true
  waits : ∀ (t : Nat) (p : ClientPoint), m.clients[t]? = some p → Waits m p

/-- While nothing has failed and a client is on its way to a stop or busy otherwise, the writer is
    there. -/
theorem Live.not_gone {m : Machine δ} (h : Live m) {t : Nat} {p : ClientPoint}
    (hp : m.clients[t]? = some p) (hsound : m.state.failure = none) (hidle : p.isIdle = false)
    (hstop : p.hasStopped = false) (panicked : Bool) : m.writer ≠ .gone panicked := by
  intro hgone
  rcases h.left (by rw [hgone]; rfl) with hw | hf | hs
  · rw [hgone] at hw
    cases hw
  · exact hf hsound
  · rcases h.stopping hs t p hp with hi | hi
    · rw [hidle] at hi
      cases hi
    · rw [hstop] at hi
      cases hi

/-! ### Steps of a client -/

section

variable [Device δ] {m m₁ : Machine δ} {t : Nat} {p p' : ClientPoint}

omit [Device δ] in
theorem pushing_writer (m : Machine δ) (rest : Bytes) :
    (m.pushing rest).writer = m.writer ∧ (m.pushing rest).state.ring.blockReady = false ∨
      (m.pushing rest).writer = m.writer.wakeForItem := by
  unfold pushing
  dsimp only
  split
  · exact .inr rfl
  · exact .inl ⟨rfl, Bool.eq_false_iff.2 ‹_›⟩

theorem ClientStep.failure_eq (hs : ClientStep m t p p' m₁) :
    m₁.state.failure = m.state.failure := by
  cases hs <;> rfl

theorem ClientStep.writer_eq (hs : ClientStep m t p p' m₁) :
    m₁.writer = m.writer ∨ m₁.writer = m.writer.wakeForItem := by
  cases hs with
  | feedPart | feedAll => exact (pushing_writer ..).imp_left And.left
  | flushPads | announceStop => exact .inr rfl
  | _ => exact .inl rfl

/-- A client leaves alone of the writer what a wake-up leaves alone. -/
theorem ClientStep.writer_congr {α : Type} {f : WriterPoint → α} (hs : ClientStep m t p p' m₁)
    (hf : ∀ w, f w.wakeForItem = f w) : f m₁.writer = f m.writer := by
  rcases hs.writer_eq with hw | hw <;> rw [hw]
  exact hf _

theorem ClientStep.stop_eq (hs : ClientStep m t p p' m₁) :
    m₁.state.stop = m.state.stop ∨
      m₁.state.stop = true ∧ p.isClosing = true ∧ ∃ flushed, p' = .stopped flushed := by
  cases hs with
  | askToStop => exact .inr ⟨rfl, rfl, _, rfl⟩
  | _ => exact .inl rfl

/-- Only a client with the append lock does anything to the ring. -/
theorem ClientStep.ring_eq (hs : ClientStep m t p p' m₁) :
    m₁.state.ring = m.state.ring ∨ p.holdsAppend = true := by
  cases hs with
  | feedPart _ feeds | feedAll _ feeds => cases feeds <;> exact .inr rfl
  | flushPads | flushDone => exact .inr rfl
  | _ => exact .inl rfl

/-- On from a stop it goes to the end of the close. -/
theorem ClientStep.hasStopped (hs : ClientStep m t p p' m₁) (hp : p.hasStopped = true) :
    p'.isIdle = true ∨ p'.hasStopped = true := by
  cases hs with
  | feedNothing _ feeds | feedRefused _ feeds | feedAll _ feeds => exact .inl rfl
  | feedBlocked _ feeds => cases feeds <;> cases hp
  | feedPart _ feeds => cases feeds <;> cases hp
  | joinDegraded | sync => exact .inl rfl
  | announceStop | join => exact .inr rfl
  | _ => cases hp

/-- A client that has asked for a stop notifies the writer next. -/
theorem ClientStep.wakes_of_stopped {flushed : Except LogError Unit}
    (hs : ClientStep m t (.stopped flushed) p' m₁) : m₁.writer = m.writer.wakeForItem := by
  cases hs with
  | announceStop => rfl
  | feedNothing _ feeds => cases feeds
  | feedRefused _ feeds => cases feeds
  | feedBlocked _ feeds => cases feeds
  | feedPart _ feeds => cases feeds
  | feedAll _ feeds => cases feeds

theorem wakeForItem_ne_asleep (w : WriterPoint) : w.wakeForItem ≠ .asleep := by
  cases w <;> simp [WriterPoint.wakeForItem]

theorem wakeForItem_isLeaving (w : WriterPoint) : w.wakeForItem.isLeaving = w.isLeaving := by
  cases w <;> rfl

theorem wakeForItem_eq_of_isLeaving {w : WriterPoint} (h : w.isLeaving = true) :
    w.wakeForItem = w := by
  cases w <;> first | rfl | cases h

theorem wakeForItem_ne_gone {w : WriterPoint} (h : ∀ panicked, w ≠ .gone panicked) (panicked : Bool) :
    w.wakeForItem ≠ .gone panicked := by
  cases w <;> simp_all [WriterPoint.wakeForItem]

end

section

variable [Device δ] [LawfulDevice δ] {initial : Bytes} {m m' m₁ : Machine δ} {a : Account} {t : Nat}
  {p p' : ClientPoint}

/-- A step that leaves a sleeping writer asleep leaves no whole block in the ring. -/
theorem ClientStep.blockReady_eq_false (h : Inv initial m a) (hs : ClientStep m t p p' m₁)
    (hready : m.state.ring.blockReady = false) (hasleep : m₁.writer = .asleep) :
    m₁.state.ring.blockReady = false := by
  cases hs with
  | feedPart | feedAll =>
    rcases pushing_writer m _ with ⟨-, hempty⟩ | hw
    · exact hempty
    · exact absurd (hw.symm.trans hasleep) (wakeForItem_ne_asleep _)
  | flushPads => exact absurd hasleep (wakeForItem_ne_asleep _)
  | flushDone _ _ empty =>
    have hpos := h.consistent.buffers.ring.blockSize_pos
    unfold LogState.settleFlush
    dsimp only
    split
    · refine decide_eq_false ?_
      show ¬ m.state.ring.blockSize ≤ m.state.ring.blockSize - _
      omega
    · exact hready
  | _ => exact hready

omit [Device δ] [LawfulDevice δ] in
theorem waits_setClient {q : ClientPoint} : Waits (m.setClient t p) q ↔ Waits m q := by
  cases q <;> rfl

omit [Device δ] [LawfulDevice δ] in
theorem feeds_point {data rest : Bytes} {offset : Nat} (hf : Feeds m p data rest offset) :
    p.isIdle = false ∧ p.hasStopped = false := by
  cases hf <;> exact ⟨rfl, rfl⟩

omit [Device δ] [LawfulDevice δ] in
theorem waits_next (purpose : Purpose) (flushed : Except LogError Nat) :
    Waits m (purpose.next flushed) := by
  cases purpose with
  | read offset len =>
    cases flushed with
    | error e => trivial
    | ok size =>
      unfold Purpose.next
      dsimp only
      split <;> trivial
  | _ => cases flushed <;> trivial

/-- A client that goes to sleep has something to wait for. -/
theorem ClientStep.waits (h : Inv initial m a) (hl : Live m) (hp : m.clients[t]? = some p)
    (hs : ClientStep m t p p' m₁) : Waits m₁ p' := by
  have hwaits := hl.waits t p hp
  cases hs with
  | feedBlocked _ feeds _ sound full =>
    obtain ⟨hidle, hstop⟩ := feeds_point feeds
    exact ⟨full, hl.not_gone hp sound hidle hstop⟩
  | @feedPart _ data rest _ _ feeds sound room short =>
    obtain ⟨hidle, hstop⟩ := feeds_point feeds
    refine ⟨?_, fun panicked => ?_⟩
    · show (m.state.ring.push rest).1.free = 0
      have hring := h.consistent.buffers.ring
      rw [Ring.free, Ring.push_capacity hring, Ring.push_filled hring, List.length_take,
        Nat.min_eq_left (Nat.le_of_lt short), Ring.free]
      omega
    · rcases pushing_writer m rest with ⟨hw, -⟩ | hw <;> rw [hw]
      · exact hl.not_gone hp sound hidle hstop panicked
      · exact wakeForItem_ne_gone (hl.not_gone hp sound hidle hstop) panicked
  | flushPads _ sound some_filled =>
    refine ⟨?_, wakeForItem_ne_gone (hl.not_gone hp sound rfl rfl)⟩
    show m.state.ring.fillUp.1.filled ≠ 0
    rw [Ring.fillUp_filled]
    omega
  | flushWaits _ sound some_filled => exact ⟨some_filled, hl.not_gone hp sound rfl rfl⟩
  | refuseFlush | flushNothing | flushFails | flushDone => exact waits_next ..
  | askToStop => rfl
  | announceStop => exact hwaits
  | join => exact hwaits
  | _ => trivial

theorem Live.clientStep (hl : Live m) (h : Inv initial m a) (hp : m.clients[t]? = some p)
    (hs : ClientStep m t p p' m₁) : Live (m₁.setClient t p') := by
  have hplaced := hs.placed hp
  have hleaving : m₁.writer.isLeaving = m.writer.isLeaving := hs.writer_congr wakeForItem_isLeaving
  have hstop : m.state.stop = true → m₁.state.stop = true := by
    intro hst
    rcases hs.stop_eq with heq | ⟨hst', -⟩
    · exact heq.trans hst
    · exact hst'
  have hgone : (∀ panicked, m.writer ≠ .gone panicked) → ∀ panicked, m₁.writer ≠ .gone panicked := by
    intro hw panicked
    rcases hs.writer_eq with heq | heq <;> rw [heq]
    · exact hw panicked
    · exact wakeForItem_ne_gone hw panicked
  exact
    { failed := fun hf => by
        show m₁.writer.isLeaving = true
        rw [hleaving]
        exact hl.failed (hs.failure_eq ▸ hf)
      left := fun hlv => by
        have hlv' : m.writer.isLeaving = true := hleaving ▸ hlv
        have hw : m₁.writer = m.writer := by
          rcases hs.writer_eq with hw | hw
          · exact hw
          · exact hw.trans (wakeForItem_eq_of_isLeaving hlv')
        show m₁.writer = .leaving true ∨ m₁.state.failure ≠ none ∨ m₁.state.stop = true
        rw [hw, hs.failure_eq]
        exact (hl.left hlv').imp_right (Or.imp_right hstop)
      asleep := fun hasleep => by
        replace hasleep : m₁.writer = .asleep := hasleep
        have hw : m.writer = .asleep ∧ m₁.writer = m.writer := by
          rcases hs.writer_eq with hw | hw
          · exact ⟨hw.symm.trans hasleep, hw⟩
          · exact absurd (hw.symm.trans hasleep) (wakeForItem_ne_asleep _)
        obtain ⟨hready, hstopped⟩ := hl.asleep hw.1
        have hempty : m₁.state.ring.blockReady = false := hs.blockReady_eq_false h hready hasleep
        refine ⟨hempty, fun hst => ?_⟩
        rcases hs.stop_eq with heq | ⟨-, -, flushed, rfl⟩
        · obtain ⟨u, flushed, hu⟩ := hstopped (heq ▸ hst)
          have hut : u ≠ t := by
            rintro rfl
            rw [hp] at hu
            cases hu
            exact absurd (hs.wakes_of_stopped.symm.trans hasleep) (wakeForItem_ne_asleep _)
          exact ⟨u, flushed, (hplaced.other hut).trans hu⟩
        · exact ⟨t, flushed, hplaced.self⟩
      closed := fun hst => by
        show m₁.closed = true
        rw [hs.closed_eq]
        rcases hs.stop_eq with heq | ⟨-, hclosing, -⟩
        · exact hl.closed (heq ▸ hst)
        · exact (h.exclusive.closing t p hp hclosing).1
      stopping := fun hst u q hq => by
        rcases hs.stop_eq with heq | ⟨-, hclosing, flushed, rfl⟩
        · have hst' : m.state.stop = true := heq ▸ hst
          rcases hplaced.cases hq with ⟨rfl, rfl⟩ | ⟨-, hq⟩
          · rcases hl.stopping hst' u p hp with hidle | hstopped
            · rw [hs.not_idle] at hidle
              cases hidle
            · exact hs.hasStopped hstopped
          · exact hl.stopping hst' u q hq
        · rcases hplaced.cases hq with ⟨rfl, rfl⟩ | ⟨hut, hq⟩
          · exact .inr rfl
          · exact .inl ((h.exclusive.closing t p hp hclosing).2 u q hut hq)
      waits := fun u q hq => by
        rcases hplaced.cases hq with ⟨rfl, rfl⟩ | ⟨hut, hq⟩
        · exact waits_setClient.2 (hs.waits h hl hp)
        · have hwaits := hl.waits u q hq
          have hring : q.holdsAppend = true → m₁.state.ring = m.state.ring := by
            intro hheld
            rcases hs.ring_eq with hring | hmine
            · exact hring
            · exact absurd (h.exclusive.append_unique hp hq hmine hheld) hut
          refine waits_setClient.2 ?_
          match q, hwaits, hring with
          | .appendWaiting _ _ _ true, hwaits, hring =>
            exact ⟨(hring rfl).symm ▸ hwaits.1, hgone hwaits.2⟩
          | .flushWaiting _ _ true, hwaits, hring =>
            exact ⟨(hring rfl).symm ▸ hwaits.1, hgone hwaits.2⟩
          | .appendWaiting _ _ _ false, _, _ | .flushWaiting _ _ false, _, _ => trivial
          | .stopped _, hwaits, _ | .joining _, hwaits, _ | .syncing _ _, hwaits, _ =>
            exact hstop hwaits
          | .idle _, _, _ | .appendCalled _, _, _ | .appendAdmitted _, _, _ | .flushCalled _, _, _
          | .flushAdmitted _, _, _ | .readCalled _ _, _, _ | .reading _ _ _, _, _
          | .stopping _, _, _ => trivial }

end

/-! ### Steps of the writer -/

section

variable [Device δ] [LawfulDevice δ] {initial : Bytes} {m m' : Machine δ} {a : Account}

omit [Device δ] [LawfulDevice δ] in
theorem LoopStep.live_frame (hl : LoopStep m m') : m'.state.ring = m.state.ring ∧
    m'.state.failure = m.state.failure ∧ m'.state.stop = m.state.stop := by
  cases hl <;> exact ⟨rfl, rfl, rfl⟩

omit [Device δ] [LawfulDevice δ] in
/-- From the head of its loop the writer leaves only when asked to, and sleeps only with nothing to do. -/
theorem LoopStep.point (hl : LoopStep m m') :
    (m'.writer.isLeaving = true → m'.state.stop = true) ∧
      (m'.writer = .asleep → m'.state.ring.blockReady = false ∧ m'.state.stop = false) ∧
      ∀ panicked, m'.writer ≠ .gone panicked := by
  cases hl with
  | take => exact ⟨fun h => (by cases h), fun h => (by cases h), fun _ h => by cases h⟩
  | sleep empty going => exact ⟨fun h => (by cases h), fun _ => ⟨empty, going⟩, fun _ h => by cases h⟩
  | leave empty stop => exact ⟨fun _ => stop, fun h => (by cases h), fun _ h => by cases h⟩

omit [LawfulDevice δ] in
theorem WriterStep.stop_eq (hs : WriterStep m m') : m'.state.stop = m.state.stop := by
  cases hs with
  | loop _ _ loop => exact loop.live_frame.2.2
  | complete _ _ loop => exact loop.live_frame.2.2
  | _ => rfl

omit [Device δ] [LawfulDevice δ] in
theorem Waits.mono {p : ClientPoint} (h : Waits m p) (hring : m'.state.ring = m.state.ring)
    (hstop : m'.state.stop = m.state.stop) (hgone : ∀ panicked, m'.writer ≠ .gone panicked) :
    Waits m' p := by
  match p, h with
  | .appendWaiting _ _ _ true, h | .flushWaiting _ _ true, h => exact ⟨hring ▸ h.1, hgone⟩
  | .stopped _, h | .joining _, h | .syncing _ _, h => exact hstop.trans h
  | .appendWaiting _ _ _ false, _ | .flushWaiting _ _ false, _ | .idle _, _ | .appendCalled _, _
  | .appendAdmitted _, _ | .flushCalled _, _ | .flushAdmitted _, _ | .readCalled _ _, _
  | .reading _ _ _, _ | .stopping _, _ => trivial

omit [Device δ] [LawfulDevice δ] in
/-- A pop wakes every append, and a flush if there is nothing left for it to wait for. -/
theorem waits_accounted {offset : Nat} {p : ClientPoint} (h : Waits m p)
    (hdrain : p.isFlushWaiting = true → m.state.draining = true) :
    Waits (m.accounted offset) (p.wakeForPop
      (decide (m.state.draining = true ∧ m.state.ring.filled - m.state.ring.blockSize = 0))) := by
  cases hd : decide (m.state.draining = true ∧ m.state.ring.filled - m.state.ring.blockSize = 0) with
  | true =>
    match p, h with
    | .stopped _, h | .joining _, h | .syncing _ _, h => exact h
    | .appendWaiting _ _ _ _, _ | .flushWaiting _ _ _, _ | .idle _, _ | .appendCalled _, _
    | .appendAdmitted _, _ | .flushCalled _, _ | .flushAdmitted _, _ | .readCalled _ _, _
    | .reading _ _ _, _ | .stopping _, _ => trivial
  | false =>
    match p, h, hdrain with
    | .flushWaiting _ _ true, h, hdrain =>
      exact ⟨fun he => (of_decide_eq_false hd) ⟨hdrain rfl, he⟩, fun _ hw => by cases hw⟩
    | .stopped _, h, _ | .joining _, h, _ | .syncing _ _, h, _ => exact h
    | .appendWaiting _ _ _ _, _, _ | .flushWaiting _ _ false, _, _ | .idle _, _, _
    | .appendCalled _, _, _ | .appendAdmitted _, _, _ | .flushCalled _, _, _
    | .flushAdmitted _, _, _ | .readCalled _ _, _, _ | .reading _ _ _, _, _
    | .stopping _, _, _ => trivial

/-- A step of the writer leaves clients asleep only for a reason. -/
theorem WriterStep.waits (h : Inv initial m a) (hl : Live m) (hs : WriterStep m m') {t : Nat}
    {p : ClientPoint} (hp : m'.clients[t]? = some p) : Waits m' p := by
  cases hs with
  | loop _ _ loop =>
    rw [loop.frame.1] at hp
    exact (hl.waits t p hp).mono loop.live_frame.1 loop.live_frame.2.2 loop.point.2.2
  | complete _ _ loop =>
    rw [loop.frame.1] at hp
    replace hp : (m.clients.map _)[t]? = some p := hp
    rw [List.getElem?_map] at hp
    obtain ⟨q, hq, rfl⟩ := Option.map_eq_some_iff.1 hp
    refine Waits.mono (waits_accounted (hl.waits t q hq) fun hwaits => ?_) loop.live_frame.1
      loop.live_frame.2.2 loop.point.2.2
    have hserves := h.serves t q hq
    cases q with
    | flushWaiting => exact hserves.2
    | _ => cases hwaits
  | announce =>
    replace hp : ((m.clients.map ClientPoint.wakeForSpace).map ClientPoint.wakeForFlushed)[t]? =
      some p := hp
    rw [List.getElem?_map, List.getElem?_map] at hp
    obtain ⟨q', hq', rfl⟩ := Option.map_eq_some_iff.1 hp
    obtain ⟨q, hq, rfl⟩ := Option.map_eq_some_iff.1 hq'
    have hwaits := hl.waits t q hq
    cases q with
    | stopped | joining | syncing => exact hwaits
    | _ => trivial
  | _ => exact (hl.waits t p hp).mono rfl rfl fun _ hw => by cases hw

theorem Live.writerStep (hl : Live m) (h : Inv initial m a) (hs : WriterStep m m') : Live m' := by
  have hstop := hs.stop_eq
  have hsound : m.writer.isLeaving = false → m.state.failure = none := by
    intro hw
    by_contra hf
    rw [hl.failed hf] at hw
    cases hw
  have hasleep : m'.writer = .asleep → m'.state.ring.blockReady = false ∧ m'.state.stop = false := by
    intro hw
    cases hs with
    | loop _ _ loop => exact loop.point.2.1 hw
    | complete _ _ loop => exact loop.point.2.1 hw
    | _ => cases hw
  exact
    { failed := by
        intro hf
        cases hs with
        | loop ready _ loop =>
          rw [loop.live_frame.2.1] at hf
          exact absurd (hsound (by rw [ready]; rfl)) hf
        | complete wrote _ loop =>
          rw [loop.live_frame.2.1] at hf
          exact absurd (hsound (by rw [wrote]; rfl)) hf
        | enter staged => exact absurd (hsound (by rw [staged]; rfl)) hf
        | done inFlight => exact absurd (hsound (by rw [inFlight]; rfl)) hf
        | failed inFlight => exact absurd (hsound (by rw [inFlight]; rfl)) hf
        | _ => rfl
      left := by
        intro hlv
        cases hs with
        | loop _ _ loop => exact .inr (.inr (loop.point.1 hlv))
        | complete _ _ loop => exact .inr (.inr (loop.point.1 hlv))
        | panicked => exact .inl rfl
        | fail => exact .inr (.inl (by simp [failWrite]))
        | @record panicked leaving =>
          show _ ∨ (if _ then _ else _) ≠ none ∨ m.state.stop = true
          rcases hl.left (by rw [leaving]; rfl) with hw | hf | hst
          · rw [leaving] at hw
            cases hw
            refine .inr (.inl ?_)
            split
            · simp
            · rename_i hn
              exact fun hf => hn ⟨rfl, hf⟩
          · refine .inr (.inl ?_)
            rwa [if_neg fun hn => hf hn.2]
          · exact .inr (.inr hst)
        | @announce panicked announcing =>
          rcases hl.left (by rw [announcing]; rfl) with hw | hf | hst
          · rw [announcing] at hw
            cases hw
          · exact .inr (.inl hf)
          · exact .inr (.inr hst)
        | _ => cases hlv
      asleep := fun hw => by
        obtain ⟨hready, hst⟩ := hasleep hw
        exact ⟨hready, fun hst' => by rw [hst] at hst'; cases hst'⟩
      closed := fun hst => hs.frame.2.2.trans (hl.closed (hstop ▸ hst))
      stopping := fun hst t q hq => by
        obtain ⟨p, hp, hwoken⟩ := hs.woken_from hq
        rw [hwoken.isIdle, hwoken.hasStopped]
        exact hl.stopping (hstop ▸ hst) t p hp
      waits := fun t p hp => hs.waits h hl hp }

omit [Device δ] [LawfulDevice δ] in
theorem Live.submit (hl : Live m) {t : Nat} {request : Request}
    (hs : m.submit? t request = some m') : Live m' := by
  obtain ⟨last, hp, hopen, hcase⟩ := submit?_cases hs
  have hsame : m'.state = m.state ∧ m'.writer = m.writer := by
    rcases hcase with ⟨-, rfl⟩ | ⟨-, -, rfl⟩ <;> exact ⟨rfl, rfl⟩
  obtain ⟨hstate, hwriter⟩ := hsame
  -- a log that is still open has not been asked to stop
  have hgoing : m'.state.stop ≠ true := by
    intro hst
    rw [hstate] at hst
    rw [hl.closed hst] at hopen
    cases hopen
  exact
    { failed := by
        rw [hstate, hwriter]
        exact hl.failed
      left := by
        rw [hstate, hwriter]
        exact hl.left
      asleep := fun hw => by
        rw [hwriter] at hw
        obtain ⟨hready, -⟩ := hl.asleep hw
        exact ⟨by rw [hstate]; exact hready, fun hst => absurd hst hgoing⟩
      closed := fun hst => absurd hst hgoing
      stopping := fun hst => absurd hst hgoing
      waits := fun u q hq => by
        rcases (submit?_placed hs).cases hq with ⟨rfl, rfl⟩ | ⟨-, hq⟩
        · cases request <;> trivial
        · have hwaits := hl.waits u q hq
          cases q <;> simp_all [Waits] }

/-- A move leaves nobody waiting for nothing. -/
theorem Live.move (hl : Live m) (h : Inv initial m a) {move : Move} (hm : m.move? move = some m') :
    Live m' := by
  match move, hm with
  | .submit t request, hm => exact hl.submit hm
  | .step .writer, hm => exact hl.writerStep h (writerStep?_cases hm)
  | .step (.client t), hm =>
    obtain ⟨p, p', m₁, hp, hs, rfl⟩ := clientStep?_cases hm
    exact hl.clientStep h hp hs

theorem live_of_reaches {device : δ} {settings : Settings} {clients : Nat} {m₀ : Machine δ}
    {past : History δ} (h₀ : open? device settings clients = .ok m₀) (h : Reaches m₀ past m) :
    Live m := by
  induction h with
  | start =>
    obtain ⟨ring, cache, -, -, rfl⟩ := open?_eq_ok h₀
    exact
      { failed := fun hf => absurd rfl hf
        left := fun hlv => by cases hlv
        asleep := fun hw => by cases hw
        closed := fun hst => by cases hst
        stopping := fun hst => by cases hst
        waits := fun t p hp => by
          rw [List.eq_of_mem_replicate (List.mem_of_getElem? hp)]
          trivial }
  | move move reached next ih =>
    obtain ⟨⟨flushed, hinv⟩, -⟩ := inv_of_reaches h₀ reached
    exact ih.move hinv next
  | faults d _ _ ih =>
    exact
      { failed := ih.failed
        left := ih.left
        asleep := ih.asleep
        closed := ih.closed
        stopping := ih.stopping
        waits := fun t p hp => by
          have hwaits := ih.waits t p hp
          cases p <;> exact hwaits }

/-! ### Nobody is stuck -/

omit [LawfulDevice δ] in
/-- A writer that has a device write under way can go on. -/
theorem device_free_of_stuck (hx : m.Exclusive) (hstuck : ∀ actor, m.step? actor = none) :
    m.locks.device = none := by
  have hwriter : m.writerStep? = none := hstuck .writer
  rw [hx.device]
  split
  · rename_i hflight
    cases hw : m.writer with
    | inFlight offset block =>
      rw [writerStep?, hw] at hwriter
      cases hwriter
    | _ =>
      rw [hw] at hflight
      cases hflight
  · rfl

omit [LawfulDevice δ] in
/-- A client that reads can go on, since the device is free. -/
theorem state_free_of_stuck (hx : m.Exclusive) (hstuck : ∀ actor, m.step? actor = none) :
    m.locks.state = none := by
  have hdevice := device_free_of_stuck hx hstuck
  cases hlock : m.locks.state with
  | none => rfl
  | some holder =>
    obtain ⟨t, p, hp, rfl⟩ := hx.state.client holder hlock
    have hheld := (hx.state.holder t p hp).2 hlock
    have hstep : m.clientStep? t = none := hstuck (.client t)
    cases p with
    | reading offset len got =>
      simp only [clientStep?, hp, stepRead?] at hstep
      split at hstep
      · split at hstep
        · cases hstep
        · cases hstep
      · cases hstep
    | _ => cases hheld

omit [LawfulDevice δ] in
/-- Both locks that it needs are free, so a writer that cannot go on sleeps or is gone. -/
theorem away_of_stuck (hx : m.Exclusive) (hstuck : ∀ actor, m.step? actor = none) :
    m.writer = .asleep ∨ ∃ panicked, m.writer = .gone panicked := by
  have hwriter : m.writerStep? = none := hstuck .writer
  have hdevice := device_free_of_stuck hx hstuck
  have hstate := state_free_of_stuck hx hstuck
  cases hw : m.writer with
  | asleep => exact .inl rfl
  | gone panicked => exact .inr ⟨panicked, rfl⟩
  | wrote offset block outcome =>
    cases outcome <;> simp [writerStep?, hw, hstate] at hwriter
  | _ => simp [writerStep?, hw, hstate, hdevice] at hwriter

/-- Whoever holds the append lock can go on, or sleeps while the writer has something to do. -/
theorem append_free_of_stuck (h : Inv initial m a) (hl : Live m)
    (hstuck : ∀ actor, m.step? actor = none) : m.locks.append = none := by
  have hstate := state_free_of_stuck h.exclusive hstuck
  have haway := away_of_stuck h.exclusive hstuck
  cases hlock : m.locks.append with
  | none => rfl
  | some holder =>
    obtain ⟨t, p, hp, rfl⟩ := h.exclusive.append.client holder hlock
    have hheld := (h.exclusive.append.holder t p hp).2 hlock
    have hstep : m.clientStep? t = none := hstuck (.client t)
    have hwaits := hl.waits t p hp
    have hserves := h.serves t p hp
    have hring := h.consistent.buffers.ring
    cases p with
    | appendAdmitted data =>
      simp only [clientStep?, hp, beginAppend?, hstate, ↓reduceIte] at hstep
      split at hstep <;> cases hstep
    | appendWaiting data rest offset asleep =>
      cases asleep with
      | false => simp [clientStep?, hp, resumeAppend?, hstate] at hstep
      | true =>
        obtain ⟨hfull, hgone⟩ := hwaits
        rcases haway with hw | ⟨panicked, hw⟩
        · have hempty := of_decide_eq_false (hl.asleep hw).1
          have hle := hring.blockSize_le_capacity
          rw [Ring.free] at hfull
          omega
        · exact absurd hw (hgone panicked)
    | flushAdmitted purpose => simp [clientStep?, hp, beginFlush?, hstate] at hstep
    | flushWaiting purpose pad asleep =>
      cases asleep with
      | false => simp [clientStep?, hp, resumeFlush?, hstate] at hstep
      | true =>
        obtain ⟨hsome, hgone⟩ := hwaits
        rcases haway with hw | ⟨panicked, hw⟩
        · -- what a flush waits for is whole blocks
          have hempty := of_decide_eq_false (hl.asleep hw).1
          have hdvd := h.consistent.buffers.aligned (.inl hserves.2)
          rw [← h.consistent.buffers.endOffset] at hdvd
          have hblocks := (Nat.dvd_add_right hring.offset_aligned).1 hdvd
          exact absurd (Nat.le_of_dvd (Nat.pos_of_ne_zero hsome) hblocks) hempty
        · exact absurd hw (hgone panicked)
    | _ => cases hheld

/-- When no thread can take a step, every call is over. -/
theorem idle_of_stuck (h : Inv initial m a) (hl : Live m)
    (hstuck : ∀ actor, m.step? actor = none) {t : Nat} {p : ClientPoint}
    (hp : m.clients[t]? = some p) : p.isIdle = true := by
  have hdevice := device_free_of_stuck h.exclusive hstuck
  have hstate := state_free_of_stuck h.exclusive hstuck
  have happend := append_free_of_stuck h hl hstuck
  have hstep : m.clientStep? t = none := hstuck (.client t)
  cases p with
  | idle => rfl
  | appendCalled data => simp [clientStep?, hp, admitAppend?, happend] at hstep
  | flushCalled purpose => simp [clientStep?, hp, admitFlush?, happend] at hstep
  | readCalled offset len =>
    simp only [clientStep?, hp, beginRead?, hstate, ↓reduceIte] at hstep
    split at hstep <;> cases hstep
  | stopping flushed => simp [clientStep?, hp, askToStop?, hstate] at hstep
  | stopped flushed => simp [clientStep?, hp] at hstep
  | joining flushed =>
    rcases away_of_stuck h.exclusive hstuck with hw | ⟨panicked, hw⟩
    · obtain ⟨u, f, hu⟩ := (hl.asleep hw).2 (hl.waits t _ hp)
      have hother : m.clientStep? u = none := hstuck (.client u)
      simp [clientStep?, hu] at hother
    · simp only [clientStep?, hp, join?, hw, hstate, ↓reduceIte] at hstep
      split at hstep <;> cases hstep
  | syncing flushed joined => simp [clientStep?, hp, lastSync?, hdevice] at hstep
  | reading =>
    rw [h.exclusive.state.holder t _ hp |>.1 rfl] at hstate
    cases hstate
  | appendAdmitted | appendWaiting | flushAdmitted | flushWaiting =>
    rw [h.exclusive.append.holder t _ hp |>.1 rfl] at happend
    cases happend

end

end Machine

end BlockLog
