import BlockLog.Proofs.Log.Liveness

/-! No wake-up is lost. The threads that sleep on a condition are its wait set; a thread that is about
    to notify a condition has left the section that gives it the reason to, and goes on to the
    notification whatever the others do. Whoever sleeps while no notification is on its way sleeps
    for a reason, and somebody else is at work on it.

        a client, closing:   ask to stop ──▶ stopped ──▶ notify item
        the writer:          out of its loop ──▶ leaving ──▶ announcing ──▶ notify space, flushed
                                                 └───── on their way ────┘ -/

namespace BlockLog

/-- A condition that threads sleep on. -/
inductive Condition where
  /-- There is a block to write, or a stop has been asked for. -/
  | item
  /-- There is space in the ring, or the writer has left. -/
  | space
  /-- The ring has run empty, or the writer has left. -/
  | flushed
  deriving DecidableEq

/-- The writer has said that it has left. -/
def WriterPoint.hasExited : WriterPoint → Bool
  | .announcing _ | .gone _ => true
  | _ => false

@[simp] theorem WriterPoint.hasExited_wakeForItem (w : WriterPoint) :
    w.wakeForItem.hasExited = w.hasExited := by
  cases w <;> rfl

theorem WriterPoint.isLeaving_of_hasExited {w : WriterPoint} (h : w.hasExited = true) :
    w.isLeaving = true := by
  cases w <;> first | rfl | cases h

namespace Machine

variable {δ : Type}

/-- The wait sets: who sleeps on which condition. -/
inductive Sleeps (m : Machine δ) : Condition → Actor → Prop
  | item (asleep : m.writer = .asleep) : Sleeps m .item .writer
  | space {t data rest offset} (asleep : m.clients[t]? = some (.appendWaiting data rest offset true)) :
    Sleeps m .space (.client t)
  | flushed {t purpose pad} (asleep : m.clients[t]? = some (.flushWaiting purpose pad true)) :
    Sleeps m .flushed (.client t)

/-- A notification of a condition is on its way, and who brings it. -/
inductive Notifies (m : Machine δ) : Condition → Actor → Prop
  | stopped {t flushed} (point : m.clients[t]? = some (.stopped flushed)) :
    Notifies m .item (.client t)
  | leaving {c panicked} (leave : c ≠ .item) (point : m.writer = .leaving panicked) :
    Notifies m c .writer
  | announcing {c panicked} (leave : c ≠ .item) (point : m.writer = .announcing panicked) :
    Notifies m c .writer

/-! ### A notification on its way arrives -/

section

variable [Device δ] {m m' m₁ : Machine δ} {t : Nat} {p p' : ClientPoint} {c : Condition} {actor : Actor}

theorem Notifies.clientStep (h : m.Notifies c actor) (hp : m.clients[t]? = some p)
    (hs : ClientStep m t p p' m₁) : (m₁.setClient t p').Notifies c actor ∨
      ∀ sleeper, ¬ (m₁.setClient t p').Sleeps c sleeper := by
  have hkept : m.writer.isLeaving = true → m₁.writer = m.writer := by
    intro hleaving
    rcases hs.writer_eq with hw | hw
    · exact hw
    · exact hw.trans (wakeForItem_eq_of_isLeaving hleaving)
  cases h with
  | @stopped u flushed point =>
    by_cases hut : u = t
    · subst hut
      rw [hp] at point
      cases point
      refine .inr fun sleeper hsleeps => ?_
      cases hsleeps with
      | item asleep => exact wakeForItem_ne_asleep _ (hs.wakes_of_stopped.symm.trans asleep)
    · exact .inl (.stopped (((hs.placed hp).other hut).trans point))
  | leaving leave point => exact .inl (.leaving leave ((hkept (by rw [point]; rfl)).trans point))
  | announcing leave point => exact .inl (.announcing leave ((hkept (by rw [point]; rfl)).trans point))

omit [Device δ] in
/-- Nobody sleeps through the last notification of the writer. -/
theorem not_sleeps_announceExit (hc : c ≠ .item) (panicked : Bool) (sleeper : Actor) :
    ¬ (m.announceExit panicked).Sleeps c sleeper := by
  have hwoken : ∀ {u : Nat} {q : ClientPoint}, (m.announceExit panicked).clients[u]? = some q →
      ∃ p : ClientPoint, q = p.wakeForSpace.wakeForFlushed := by
    intro u q hq
    replace hq : ((m.clients.map ClientPoint.wakeForSpace).map ClientPoint.wakeForFlushed)[u]? =
      some q := hq
    rw [List.map_map, List.getElem?_map] at hq
    obtain ⟨p, -, rfl⟩ := Option.map_eq_some_iff.1 hq
    exact ⟨p, rfl⟩
  intro hsleeps
  cases hsleeps with
  | item => exact hc rfl
  | space asleep | flushed asleep =>
    obtain ⟨p, hp⟩ := hwoken asleep
    cases p <;> cases hp

theorem Notifies.writerStep (h : m.Notifies c actor) (hs : WriterStep m m') :
    m'.Notifies c actor ∨ ∀ sleeper, ¬ m'.Sleeps c sleeper := by
  cases h with
  | @stopped u flushed point =>
    obtain ⟨wake, hwake, hclients⟩ := hs.clients
    have hu : m'.clients[u]? = some (wake (.stopped flushed)) := by
      rw [hclients, List.getElem?_map, point]
      rfl
    have hwoken := hwake (.stopped flushed)
    generalize wake (.stopped flushed) = q at hu hwoken
    cases hwoken
    exact .inl (.stopped hu)
  | leaving leave point =>
    cases hs with
    | record => exact .inl (.announcing leave rfl)
    | _ => simp_all only [reduceCtorEq]
  | announcing leave point =>
    cases hs with
    | announce => exact .inr (not_sleeps_announceExit leave _)
    | _ => simp_all only [reduceCtorEq]

/-- A notification stays on its way until its whole wait set has been woken. -/
theorem Notifies.move (h : m.Notifies c actor) {move : Move} (hm : m.move? move = some m') :
    m'.Notifies c actor ∨ ∀ sleeper, ¬ m'.Sleeps c sleeper := by
  match move, hm with
  | .submit t request, hm =>
    obtain ⟨last, hp, -⟩ := submit?_cases hm
    obtain ⟨-, hwriter, -⟩ := submit?_frame hm
    cases h with
    | @stopped u flushed point =>
      have hut : u ≠ t := by
        rintro rfl
        rw [hp] at point
        cases point
      exact .inl (.stopped (((submit?_placed hm).other hut).trans point))
    | leaving leave point => exact .inl (.leaving leave (hwriter.trans point))
    | announcing leave point => exact .inl (.announcing leave (hwriter.trans point))
  | .step .writer, hm => exact h.writerStep (writerStep?_cases hm)
  | .step (.client t), hm =>
    obtain ⟨p, p', m₁, hp, hs, rfl⟩ := clientStep?_cases hm
    exact h.clientStep hp hs

/-! ### The phase of the writer -/

theorem ClientStep.hasExited_eq (hs : ClientStep m t p p' m₁) :
    m₁.writer.hasExited = m.writer.hasExited :=
  hs.writer_congr WriterPoint.hasExited_wakeForItem

theorem ClientStep.phase_eq (hs : ClientStep m t p p' m₁) : m₁.state.phase = m.state.phase := by
  cases hs <;> rfl

theorem WriterStep.exited_iff (hs : WriterStep m m')
    (h : m.state.phase = .exited ↔ m.writer.hasExited = true) :
    m'.state.phase = .exited ↔ m'.writer.hasExited = true := by
  have hloop : ∀ {m₁ m₂ : Machine δ}, LoopStep m₁ m₂ →
      (m₂.state.phase = .exited ↔ m₂.writer.hasExited = true) := by
    intro m₁ m₂ hl
    cases hl <;> simp [WriterPoint.hasExited]
  cases hs with
  | loop _ _ loop | complete _ _ loop => exact hloop loop
  | enter point | done point | failed point | panicked point | fail point =>
    rw [point] at h
    exact h
  | record => simp [recordExit, WriterPoint.hasExited]
  | announce point =>
    rw [point] at h
    exact h

/-- A move keeps the phase in step with the writer. -/
theorem exited_iff_move {move : Move} (hm : m.move? move = some m')
    (h : m.state.phase = .exited ↔ m.writer.hasExited = true) :
    m'.state.phase = .exited ↔ m'.writer.hasExited = true := by
  match move, hm with
  | .submit t request, hm =>
    obtain ⟨hstate, hwriter, -⟩ := submit?_frame hm
    rw [hstate, hwriter]
    exact h
  | .step .writer, hm => exact (writerStep?_cases hm).exited_iff h
  | .step (.client t), hm =>
    obtain ⟨p, p', m₁, -, hs, rfl⟩ := clientStep?_cases hm
    show m₁.state.phase = .exited ↔ m₁.writer.hasExited = true
    rw [hs.phase_eq, hs.hasExited_eq]
    exact h

end

/-! ### Nobody sleeps for nothing -/

/-- Whoever sleeps has a reason to, or a notification is on its way: the writer has no block and has
    not been asked to stop, an append finds no space and nothing has failed, a flush waits for whole
    blocks and the writer has been told so and is still there. -/
structure Attended (m : Machine δ) : Prop where
  item : ∀ sleeper, m.Sleeps .item sleeper → (∀ actor, ¬ m.Notifies .item actor) →
    m.state.ring.blockReady = false ∧ m.state.stop = false
  space : ∀ sleeper, m.Sleeps .space sleeper → (∀ actor, ¬ m.Notifies .space actor) →
    m.state.ring.filled = m.state.ring.capacity ∧ m.state.failure = none
  flushed : ∀ sleeper, m.Sleeps .flushed sleeper → (∀ actor, ¬ m.Notifies .flushed actor) →
    0 < m.state.ring.filled ∧ m.state.ring.blockSize ∣ m.state.ring.filled ∧
      m.state.draining = true ∧ m.state.failure = none ∧ m.state.phase ≠ .exited

section

variable [Device δ] [LawfulDevice δ] {initial : Bytes} {m : Machine δ} {a : Account}

omit [Device δ] [LawfulDevice δ] in
/-- A writer that is out of its loop, but not gone, has still to notify those who wait for it. -/
theorem not_isLeaving_of_unnotified {c : Condition} (hc : c ≠ .item)
    (hnone : ∀ actor, ¬ m.Notifies c actor) (hgone : ∀ panicked, m.writer ≠ .gone panicked) :
    m.writer.isLeaving = false := by
  cases hw : m.writer with
  | leaving => exact absurd (.leaving hc hw) (hnone .writer)
  | announcing => exact absurd (.announcing hc hw) (hnone .writer)
  | gone panicked => exact absurd hw (hgone panicked)
  | _ => rfl

omit [Device δ] [LawfulDevice δ] in
theorem Live.sound_of_not_isLeaving (hl : Live m) (hw : m.writer.isLeaving = false) :
    m.state.failure = none := by
  by_contra hf
  rw [hl.failed hf] at hw
  cases hw

theorem attended_of_live (h : Inv initial m a) (hl : Live m)
    (hphase : m.state.phase = .exited ↔ m.writer.hasExited = true) : m.Attended where
  item sleeper hsleeps hnone := by
    cases hsleeps with
    | item asleep =>
      obtain ⟨hempty, hstopped⟩ := hl.asleep asleep
      refine ⟨hempty, Bool.eq_false_iff.2 fun hstop => ?_⟩
      obtain ⟨t, flushed, ht⟩ := hstopped hstop
      exact hnone _ (.stopped ht)
  space sleeper hsleeps hnone := by
    cases hsleeps with
    | space asleep =>
      obtain ⟨hfull, hgone⟩ : m.state.ring.free = 0 ∧ _ := hl.waits _ _ asleep
      have hle := h.consistent.buffers.ring.filled_le
      rw [Ring.free] at hfull
      exact ⟨by omega, hl.sound_of_not_isLeaving (not_isLeaving_of_unnotified (by decide) hnone hgone)⟩
  flushed sleeper hsleeps hnone := by
    cases hsleeps with
    | flushed asleep =>
      obtain ⟨hsome, hgone⟩ : m.state.ring.filled ≠ 0 ∧ _ := hl.waits _ _ asleep
      obtain ⟨-, hdrain⟩ := h.serves _ _ asleep
      have hthere := not_isLeaving_of_unnotified (by decide) hnone hgone
      have hbuffers := h.consistent.buffers
      -- the padding has filled the last block up, and blocks leave whole
      have hdvd := hbuffers.aligned (.inl hdrain)
      rw [← hbuffers.endOffset] at hdvd
      refine ⟨Nat.pos_of_ne_zero hsome, (Nat.dvd_add_right hbuffers.ring.offset_aligned).1 hdvd, hdrain,
        hl.sound_of_not_isLeaving hthere, fun hexited => ?_⟩
      rw [WriterPoint.isLeaving_of_hasExited (hphase.1 hexited)] at hthere
      cases hthere

variable {device : δ} {settings : Settings} {clients : Nat} {m₀ : Machine δ} {past : History δ}

/-- The writer is in the phase `exited` from the moment on when it says so. -/
theorem exited_iff_of_reaches (h₀ : open? device settings clients = .ok m₀) (h : Reaches m₀ past m) :
    m.state.phase = .exited ↔ m.writer.hasExited = true := by
  induction h with
  | start =>
    obtain ⟨ring, cache, -, -, rfl⟩ := open?_eq_ok h₀
    simp [start, WriterPoint.hasExited]
  | move move _ next ih => exact exited_iff_move next ih
  | faults d _ _ ih => exact ih

/-- As long as a call is under way some thread can take a step. Nobody sleeps but for a reason or until
    a notification arrives that is on its way, and such a notification is not lost: it stays on its
    way until everybody it is for has been woken. -/
theorem wakeups_arrive (h₀ : open? device settings clients = .ok m₀) (h : Reaches m₀ past m) :
    (∀ (t : Nat) (p : ClientPoint), m.clients[t]? = some p → p.isIdle = false →
      ∃ actor m', m.step? actor = some m') ∧
    m.Attended ∧
    (∀ c actor, m.Notifies c actor → ∀ move m', m.move? move = some m' →
      m'.Notifies c actor ∨ ∀ sleeper, ¬ m'.Sleeps c sleeper) := by
  obtain ⟨⟨flushed, hinv⟩, -⟩ := inv_of_reaches h₀ h
  have hlive := live_of_reaches h₀ h
  refine ⟨fun t p hp hbusy => ?_, attended_of_live hinv hlive (exited_iff_of_reaches h₀ h),
    fun c actor hnotifies move m' hm => hnotifies.move hm⟩
  by_contra hnone
  have hstuck : ∀ actor, m.step? actor = none := by
    intro actor
    by_contra hsome
    obtain ⟨m', hm'⟩ := Option.ne_none_iff_exists'.1 hsome
    exact hnone ⟨actor, m', hm'⟩
  rw [idle_of_stuck hinv hlive hstuck hp] at hbusy
  cases hbusy

/-- An append three times as long as the ring, asleep while the writer, whose write has failed, is on
    its way out. -/
theorem wakeups_arrive_failed : ∃ (m₀ m : Machine Device.Memory) (past : History Device.Memory),
    open? { blockSize := 2, contents := .ofList [], refusesWrites := true }
      { bufferBlocks := 1, cacheBlocks := 1 } 1 = .ok m₀ ∧ Reaches m₀ past m ∧
    m.Sleeps .space (.client 0) ∧ m.Notifies .space .writer ∧ m.state.isDegraded = true ∧
    ∃ actor m', m.step? actor = some m' := by
  let moves : List Move :=
    [.submit 0 (.append [1, 2, 3, 4, 5, 6]), .step (.client 0), .step (.client 0), .step .writer,
      .step .writer, .step .writer, .step .writer]
  have h₀ : open? ({ blockSize := 2, contents := .ofList [], refusesWrites := true } : Device.Memory)
      { bufferBlocks := 1, cacheBlocks := 1 } 1 = .ok _ := rfl
  refine ⟨_, _, _, h₀, reaches_of_run? moves rfl, .space rfl, .leaving (by decide) rfl, rfl, ?_⟩
  exact (wakeups_arrive h₀ (reaches_of_run? moves rfl)).1 0 _ rfl rfl

end

end Machine

end BlockLog
