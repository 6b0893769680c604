import BlockLog.Proofs.Log.Calls
import BlockLog.Proofs.Log.Coherence
import BlockLog.Proofs.Log.Orderly
import BlockLog.Proofs.Log.Wakeups

/-! The padding of a flush never shows. While the writer drains the ring, the padding goes from the end
    of the ring to the blocks let go of, and it is counted there until the flush takes it back or, if
    the log degrades, for ever; the length of the log leaves it out all the time. A flush that goes
    through leaves the ring with what of the log does not fill a block, and the writer with nothing
    to do.

        log:     ├──────────────┼──────────────┼──────┤
                 0                             │      log.length
        device:  ├──────────────┼──────────────┼──────┼ zeros ┤
        ring:                                  ├──────┤
                                               tailOffset -/

namespace BlockLog

/-- The purpose of the flush that a client has the append lock for. -/
def ClientPoint.flushes? : ClientPoint → Option Purpose
  | .flushAdmitted purpose | .flushWaiting purpose .. => some purpose
  | _ => none

/-- The writer is at the head of its loop or sleeps there. -/
def WriterPoint.isResting : WriterPoint → Bool
  | .ready | .asleep => true
  | _ => false

@[simp] theorem WriterPoint.isResting_wakeForItem (w : WriterPoint) :
    w.wakeForItem.isResting = w.isResting := by
  cases w <;> rfl

/-- A flush that goes through and one that is refused do not end the same. -/
theorem Purpose.next_ok_ne (purpose purpose' : Purpose) (size : Nat) (reason : Degradation) :
    purpose.next (.ok size) ≠ purpose'.next (.error (.degraded reason)) := by
  intro heq
  cases purpose with
  | read offset len =>
    simp only [Purpose.next] at heq
    split at heq <;> cases purpose' <;> cases heq
  | _ => cases purpose' <;> cases heq

theorem Purpose.flushes?_next (purpose : Purpose) (flushed : Except LogError Nat) :
    (purpose.next flushed).flushes? = none := by
  cases purpose <;> cases flushed <;> simp only [Purpose.next] <;> try rfl
  split <;> rfl

/-- With this move of client `t` a flush ends that has gone through, by itself or as the first part of a
    read or a close. -/
structure Moment.EndsFlush {δ : Type} (now : Moment δ) (t : Nat) (purpose : Purpose) : Prop where
  move : now.move = .step (.client t)
  under : now.before.clients[t]?.bind ClientPoint.flushes? = some purpose
  ended : ∃ size, now.after.clients[t]? = some (purpose.next (.ok size))

namespace Machine

open LawfulDevice

variable {δ : Type} [Device δ] {initial log : Bytes} {m m' m₁ : Machine δ} {a : Account} {t : Nat}
  {p p' : ClientPoint}

/-! ### The phase of a writer that rests -/

omit [Device δ] in
theorem LoopStep.phase_eq (hl : LoopStep m m') (hrests : m'.writer.isResting = true) :
    m'.state.phase = .waiting := by
  cases hl with
  | take => cases hrests
  | sleep | leave => rfl

/-- A move leaves a writer that rests with the phase that says so. -/
theorem phase_of_move {move : Move} (hm : m.move? move = some m')
    (h : m.writer.isResting = true → m.state.phase = .waiting) (hrests : m'.writer.isResting = true) :
    m'.state.phase = .waiting := by
  match move, hm with
  | .submit t request, hm =>
    obtain ⟨hstate, hwriter, -⟩ := submit?_frame hm
    rw [hwriter] at hrests
    rw [hstate]
    exact h hrests
  | .step .writer, hm =>
    cases writerStep?_cases hm with
    | loop _ _ loop => exact loop.phase_eq hrests
    | complete _ _ loop => exact loop.phase_eq hrests
    | _ => cases hrests
  | .step (.client t), hm =>
    obtain ⟨p, p', m₁, -, hs, rfl⟩ := clientStep?_cases hm
    exact hs.phase_eq.trans
      (h ((hs.writer_congr WriterPoint.isResting_wakeForItem).symm.trans hrests))

theorem phase_of_reaches [LawfulDevice δ] {device : δ} {settings : Settings} {clients : Nat}
    {m₀ : Machine δ} {past : History δ} (h₀ : open? device settings clients = .ok m₀)
    (h : Reaches m₀ past m) (hrests : m.writer.isResting = true) : m.state.phase = .waiting := by
  induction h with
  | start =>
    obtain ⟨ring, cache, -, -, rfl⟩ := open?_eq_ok h₀
    rfl
  | move move _ next ih => exact phase_of_move next ih hrests
  | faults d _ _ ih => exact ih hrests

variable [LawfulDevice δ]

/-! ### What a flush leaves -/

/-- What a flush that goes through leaves. The device has an image of the whole log, the ring has what
    of it does not fill a block, and the writer rests. -/
structure Flushed (initial log : Bytes) (m : Machine δ) : Prop where
  filled : m.state.ring.filled = log.length % m.state.ring.blockSize
  tailOffset : m.state.ring.tailOffset = log.length - log.length % m.state.ring.blockSize
  queue : m.state.ring.queue = log.drop (log.length - log.length % m.state.ring.blockSize)
  contents : contents m.device = Bytes.image m.state.ring.blockSize log initial
  pad : m.state.pad = 0
  draining : m.state.draining = false
  sound : m.state.failure = none
  going : m.state.stop = false
  phase : m.state.phase = .waiting
  rests : m.writer.isResting = true

/-- While a client is busy and has not asked for a stop, a writer without a whole block rests. -/
theorem Inv.isResting (h : Inv initial m a) (hl : Live m) (hp : m.clients[t]? = some p)
    (hidle : p.isIdle = false) (hstop : p.hasStopped = false) (hsound : m.state.failure = none)
    (hlt : m.state.ring.filled < m.state.ring.blockSize) :
    m.writer.isResting = true ∧ m.state.stop = false := by
  have hgoing : m.state.stop = false := by
    by_contra hst
    rcases hl.stopping (Bool.not_eq_false _ ▸ hst) t p hp with hi | hi
    · rw [hidle] at hi
      cases hi
    · rw [hstop] at hi
      cases hi
  have hthere : m.writer.isLeaving = false := by
    by_contra hleaving
    have hwrites := h.consistent.writes
    rcases hl.left (Bool.not_eq_false _ ▸ hleaving) with hw | hf | hst
    · rw [hw] at hwrites
      exact absurd hwrites (Nat.not_le.2 hlt)
    · exact hf hsound
    · rw [hgoing] at hst
      cases hst
  refine ⟨?_, hgoing⟩
  have hwrites := h.consistent.writes
  match hw : m.writer, hwrites, hthere with
  | .ready, _, _ | .asleep, _, _ => rfl
  | .staged .., hwrites, _ | .inFlight .., hwrites, _ => exact absurd hwrites.2.2 (Nat.not_le.2 hlt)
  | .wrote _ _ (.ok ()), hwrites, _ => exact absurd hwrites.2.1 (Nat.not_le.2 hlt)
  | .wrote _ _ (.error _), hwrites, _ => exact absurd hwrites.2 (Nat.not_le.2 hlt)

/-- A flush that ends and has gone through. -/
theorem ClientStep.flushed (h : Inv initial m a) (hl : Live m)
    (hphase : m.writer.isResting = true → m.state.phase = .waiting) (hp : m.clients[t]? = some p)
    (hs : ClientStep m t p p' m₁) {purpose : Purpose} {size : Nat} (hunder : p.flushes? = some purpose)
    (hover : p' = purpose.next (.ok size)) : Flushed initial a.log (m₁.setClient t p') := by
  have hc := h.consistent
  have hpos := hc.buffers.ring.blockSize_pos
  have hserves := h.serves t p hp
  have hwaits : ∀ {purpose' pad asleep}, .flushWaiting purpose' pad asleep ≠ purpose.next (.ok size) := by
    intro purpose' pad asleep heq
    have hnone := purpose.flushes?_next (.ok size)
    rw [← heq] at hnone
    cases hnone
  cases hs with
  | refuseFlush | flushFails => exact absurd hover.symm (Purpose.next_ok_ne _ _ _ _)
  | flushPads | flushWaits => exact absurd hover hwaits
  | flushNothing _ sound empty =>
    have hdrain := h.draining_eq_false hp rfl rfl
    have hpad := hc.buffers.pad_eq_zero hdrain sound
    obtain ⟨hfilled, htail, hqueue⟩ := hc.buffers.rest hpad (by omega)
    obtain ⟨hrests, hgoing⟩ := h.isResting hl hp rfl rfl sound (by omega)
    exact
      { filled := hfilled
        tailOffset := htail
        queue := hqueue
        contents := hc.lands.contents_eq_image (hc.lands.durable_eq hc.buffers empty)
        pad := hpad
        draining := hdrain
        sound := sound
        going := hgoing
        phase := hphase hrests
        rests := hrests }
  | flushDone _ sound empty =>
    obtain ⟨rfl, -⟩ := hserves
    have hlt := hc.buffers.settle_filled_lt empty
    have hblockSize := m.state.settleFlush_blockSize m.state.pad
    obtain ⟨hfilled, htail, hqueue⟩ := (hc.buffers.settle empty).rest rfl hlt
    obtain ⟨hrests, hgoing⟩ := h.isResting hl hp rfl rfl sound (by omega)
    exact
      { filled := hfilled
        tailOffset := htail
        queue := hqueue
        contents := by
          show contents m.device = Bytes.image (m.state.settleFlush m.state.pad).ring.blockSize _ _
          rw [hblockSize]
          exact hc.lands.contents_eq_image (hc.lands.durable_eq hc.buffers empty)
        pad := rfl
        draining := rfl
        sound := sound
        going := hgoing
        phase := hphase hrests
        rests := hrests }
  | feedNothing _ feeds | feedRefused _ feeds | feedBlocked _ feeds | feedPart _ feeds
  | feedAll _ feeds => cases feeds <;> cases hunder
  | _ => cases hunder

namespace Flushed

variable (hf : Flushed initial log m)
include hf

theorem length_eq : m.state.length = log.length := by
  have := hf.filled
  have := hf.tailOffset
  have := Nat.mod_le log.length m.state.ring.blockSize
  rw [LogState.length, Ring.endOffset, hf.pad]
  omega

/-- Only the ring, the flush under way, the writer and what the device contains matter. -/
theorem frame (hring : m'.state.ring = m.state.ring) (hpad : m'.state.pad = m.state.pad)
    (hdrain : m'.state.draining = m.state.draining) (hfailure : m'.state.failure = m.state.failure)
    (hstop : m'.state.stop = m.state.stop) (hphase : m'.state.phase = m.state.phase)
    (hwriter : m'.writer = m.writer) (hcontents : LawfulDevice.contents m'.device =
      LawfulDevice.contents m.device) : Flushed initial log m' where
  filled := by rw [hring]; exact hf.filled
  tailOffset := by rw [hring]; exact hf.tailOffset
  queue := by rw [hring]; exact hf.queue
  contents := by rw [hring, hcontents]; exact hf.contents
  pad := hpad.trans hf.pad
  draining := hdrain.trans hf.draining
  sound := hfailure.trans hf.sound
  going := hstop.trans hf.going
  phase := hphase.trans hf.phase
  rests := hwriter ▸ hf.rests

theorem faults {d : δ} (hd : SameStore m.device d) : Flushed initial log (m.withDevice d) :=
  hf.frame rfl rfl rfl rfl rfl rfl rfl hd.2

/-- A writer that rests and has no whole block goes to sleep. -/
theorem writerStep (hpos : 0 < m.state.ring.blockSize) (hs : WriterStep m m') :
    Flushed initial log m' := by
  have hrests := hf.rests
  have hlt := Nat.mod_lt log.length hpos
  have hfilled := hf.filled
  cases hs with
  | loop _ _ loop =>
    cases loop with
    | take ready => exact absurd (of_decide_eq_true ready) (by omega)
    | sleep =>
      exact
        { filled := hf.filled
          tailOffset := hf.tailOffset
          queue := hf.queue
          contents := hf.contents
          pad := hf.pad
          draining := hf.draining
          sound := hf.sound
          going := hf.going
          phase := rfl
          rests := rfl }
    | leave _ stop =>
      rw [hf.going] at stop
      cases stop
  | enter point | done point | failed point | panicked point | complete point | fail point
  | record point | announce point =>
    rw [point] at hrests
    cases hrests

end Flushed

variable {device : δ} {settings : Settings} {clients : Nat} {m₀ : Machine δ} {past more : History δ}

/-- A flush that has gone through leaves the log flushed, and it stays so while only the writer moves. -/
theorem flushed_of_endsFlush {now : Moment δ} {earlier : History δ} {purpose : Purpose}
    (h₀ : open? device settings clients = .ok m₀) (h : Reaches m₀ (now :: earlier) m)
    (hends : now.EndsFlush t purpose) (h' : Reaches m more m')
    (hwriter : ∀ after ∈ more, after.move = .step .writer) :
    Flushed (contents device) (History.log (now :: earlier)) m' := by
  induction h' with
  | start =>
    obtain ⟨before, move, after⟩ := now
    obtain ⟨rfl, hunder, size, hover⟩ := hends
    obtain ⟨reached, next, d, same, rfl⟩ := h.last
    obtain ⟨⟨flushed, hinv⟩, -⟩ := inv_of_reaches h₀ reached
    obtain ⟨p, p', m₁, hp, hs, rfl⟩ := clientStep?_cases next
    obtain ⟨q, hq, hpurpose⟩ := Option.bind_eq_some_iff.1 hunder
    have hself := (hs.placed hp).self
    rw [hp] at hq
    cases hq
    rw [hself] at hover
    cases hover
    have hquiet : p.isAppending = false := by
      cases p with
      | flushAdmitted | flushWaiting => rfl
      | _ => cases hpurpose
    rw [History.log, pushes_eq_nil hp (.inl hquiet), List.append_nil]
    exact (hs.flushed hinv (live_of_reaches h₀ reached) (phase_of_reaches h₀ reached) hp hpurpose
      rfl).faults same
  | @move more m₁ m₂ move reached next ih =>
    obtain ⟨hmove, hrest⟩ := List.forall_mem_cons.1 hwriter
    replace hmove : move = .step .writer := hmove
    subst hmove
    obtain ⟨⟨flushed, hinv⟩, -⟩ := inv_of_reaches h₀ (h.trans reached)
    exact (ih hrest).writerStep hinv.consistent.buffers.ring.blockSize_pos (writerStep?_cases next)
  | faults d _ same ih => exact (ih hwriter).faults same

/-- The length of a log survives padding. It is the number of bytes pushed, in whatever state a flush, an
    append or the writer is, failed or not, and telling it never subtracts too much. Where no flush
    waits for the writer and nothing has failed, there is no padding to leave out. And a flush that
    has gone through leaves in the ring what of the log does not fill a block, and the writer
    waiting, until somebody else than the writer moves. -/
theorem length_survives_padding (h₀ : open? device settings clients = .ok m₀)
    (h : Reaches m₀ past m) :
    (m.state.length = past.log.length ∧ m.state.length? = some past.log.length) ∧
    ((∀ p ∈ m.clients, p.isFlushWaiting = false) → m.state.failure = none →
      m.state.pad = 0 ∧ m.state.draining = false ∧
      m.state.ring.tailOffset + m.state.ring.filled = m.state.length ∧
      m.state.ring.filled % Device.blockSize device =
        m.state.length % Device.blockSize device) ∧
    (∀ now earlier t purpose more m', past = now :: earlier → now.EndsFlush t purpose →
      Reaches m more m' → (∀ after ∈ more, after.move = .step .writer) →
      m'.state.length = past.log.length ∧
      m'.state.ring.filled = m'.state.length % Device.blockSize device ∧
      m'.state.ring.tailOffset =
        m'.state.length - m'.state.length % Device.blockSize device ∧
      m'.state.phase = .waiting) := by
  obtain ⟨⟨flushed, hinv⟩, -, hblockSize⟩ := inv_of_reaches h₀ h
  have hbuffers := hinv.consistent.buffers
  refine ⟨⟨hbuffers.length_eq, hbuffers.length?_eq.trans (congrArg some hbuffers.length_eq)⟩,
    fun hnone hsound => ?_, fun now earlier t purpose more m' hpast hends h' hwriter => ?_⟩
  · have hdrain : m.state.draining = false := by
      by_contra hd
      obtain ⟨t, p, hp, hwaits⟩ := hinv.flushing (Bool.not_eq_false _ ▸ hd)
      rw [hnone p (List.mem_of_getElem? hp)] at hwaits
      cases hwaits
    have hpad := hbuffers.pad_eq_zero hdrain hsound
    have hend := hbuffers.endOffset
    rw [hpad, Nat.add_zero] at hend
    obtain ⟨first, hfirst⟩ := hbuffers.ring.offset_aligned
    rw [hbuffers.length_eq, ← hblockSize]
    refine ⟨hpad, hdrain, hend, ?_⟩
    rw [← hend, hfirst, Nat.mul_add_mod]
  · subst hpast
    obtain ⟨-, -, hblockSize'⟩ := inv_of_reaches h₀ (h.trans h')
    have hflushed := flushed_of_endsFlush h₀ h hends h' hwriter
    rw [hflushed.length_eq, ← hblockSize']
    exact ⟨rfl, hflushed.filled, hflushed.tailOffset, hflushed.phase⟩

/-- A flush of three bytes, when the writer has drained the block that they fill and is at the one that is
    padded, and when it is over. -/
theorem length_survives_padding_flush : ∃ (m₀ m m' : Machine Device.Memory)
    (past past' : History Device.Memory),
    open? { blockSize := 2, contents := .ofList [] } { bufferBlocks := 2, cacheBlocks := 1 } 1 =
      .ok m₀ ∧ Reaches m₀ past m ∧ Reaches m₀ past' m' ∧
    m.state.pad = 1 ∧ m.state.ring.endOffset = 4 ∧ past.log.length = 3 ∧
    m'.reply? 0 = some (.ok .done) ∧ m.state.length = past.log.length ∧
    m'.state.ring.filled = m'.state.length % 2 ∧ m'.state.phase = .waiting := by
  let waiting : List Move :=
    [.submit 0 (.append [1, 2, 3]), .step (.client 0), .step (.client 0), .submit 0 .flush,
      .step (.client 0), .step (.client 0), .step .writer, .step .writer, .step .writer, .step .writer]
  let drained : List Move := waiting ++ [.step .writer, .step .writer, .step .writer]
  have h₀ : open? ({ blockSize := 2, contents := .ofList [] } : Device.Memory)
      { bufferBlocks := 2, cacheBlocks := 1 } 1 = .ok _ := rfl
  refine ⟨_, _, _, _, _, h₀, reaches_run? waiting (by decide +kernel),
    (reaches_run? drained (by decide +kernel)).move (.step (.client 0))
      (Option.some_get (by decide +kernel)).symm, by decide +kernel, by decide +kernel,
    by decide +kernel, by decide +kernel,
    (length_survives_padding h₀ (reaches_run? waiting (by decide +kernel))).1.1, ?_⟩
  obtain ⟨-, hfilled, -, hphase⟩ := (length_survives_padding h₀
    ((reaches_run? drained (by decide +kernel)).move (.step (.client 0))
      (Option.some_get (by decide +kernel)).symm)).2.2 _ _ 0 .flush [] _ rfl
      ⟨rfl, by decide +kernel, 3, idle_of_reply? (by decide +kernel)⟩ .start fun _ hn => by cases hn
  exact ⟨hfilled, hphase⟩

end Machine

end BlockLog
