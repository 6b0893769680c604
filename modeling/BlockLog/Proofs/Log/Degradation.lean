import BlockLog.Proofs.Log.Calls
import BlockLog.Proofs.Log.Faultless
import BlockLog.Proofs.Log.Progress
import BlockLog.Proofs.Log.Wakeups

/-! A write that fails ends the log for good. The writer records why and leaves; from then on every call
    is refused with that reason, the device is left alone, and ring, cache, totals and length stay as
    they are, also when the device would work again.

        the write fails ──▶ wrote, the error ──▶ recorded ──▶ leaving ──▶ announcing ──▶ gone
        it panics ─────────────────▶ leaving ──▶ recorded ──▶ announcing ──▶ gone
                                                 └── every call that ends from here on is refused -/

namespace BlockLog

/-- Why a log degrades after a call to its device, if it does. -/
def DeviceCall.degradation? (blockSize : Nat) : DeviceCall → Option Degradation
  | .write offset _ (.failed e) => some (.writeFailed (offset / blockSize) e)
  | .write _ _ .panicked => some .writerPanicked
  | _ => none

/-- Why the first write that failed degrades the log. -/
def History.broken? {δ : Type} [Device δ] (blockSize : Nat) (past : History δ) : Option Degradation :=
  past.deviceCalls.findSome? (DeviceCall.degradation? blockSize)

/-- The call writes to the device. -/
def DeviceCall.isWrite : DeviceCall → Bool
  | .write .. => true
  | _ => false

namespace History

variable {δ : Type} [Device δ]

/-- No write has failed. Reads and syncs may have. -/
def WritesDone (past : History δ) : Prop :=
  ∀ call ∈ past.deviceCalls, call.isWrite = true → call.Succeeded

instance (past : History δ) : Decidable past.WritesDone :=
  inferInstanceAs (Decidable (∀ call ∈ past.deviceCalls, call.isWrite = true → call.Succeeded))

theorem WritesDone.cons {now : Moment δ} {past : History δ} (h : WritesDone (now :: past)) :
    past.WritesDone ∧ ∀ call, now.before.deviceCall? now.move = some call →
      call.isWrite = true → call.Succeeded :=
  ⟨fun call hc => h call (List.mem_append_left _ hc),
    fun call hc => h call (List.mem_append_right _ (Option.mem_toList.2 hc))⟩

theorem deviceCalls_append (more past : History δ) :
    deviceCalls (more ++ past) = past.deviceCalls ++ more.deviceCalls := by
  induction more with
  | nil => exact (List.append_nil _).symm
  | cons now more ih => rw [List.cons_append, deviceCalls, deviceCalls, ih, List.append_assoc]

theorem WritesDone.append {more past : History δ} (h : past.WritesDone) (h' : more.WritesDone) :
    (more ++ past).WritesDone := by
  intro call hc
  rw [deviceCalls_append] at hc
  exact (List.mem_append.1 hc).elim (h call) (h' call)

/-- Giving a call calls no device. -/
theorem WritesDone.submit {past : History δ} (h : past.WritesDone) (m m' : Machine δ) (t : Nat)
    (request : Request) : WritesDone (⟨m, .submit t request, m'⟩ :: past) := by
  intro call hc
  rw [deviceCalls_submit] at hc
  exact h call hc

end History

/-- What the writer is on its way to record. -/
def WriterPoint.unrecorded? (blockSize : Nat) : WriterPoint → Option Degradation
  | .wrote offset _ (.error e) => some (.writeFailed (offset / blockSize) e)
  | .leaving true => some .writerPanicked
  | _ => none

@[simp] theorem WriterPoint.unrecorded?_wakeForItem (blockSize : Nat) (w : WriterPoint) :
    w.wakeForItem.unrecorded? blockSize = w.unrecorded? blockSize := by
  cases w <;> rfl

/-- Where a client may stand in a log that has degraded: not in the middle of a read or a sync, and in a
    close only with the reason for the degradation. -/
def ClientPoint.Refused (reason : Degradation) : ClientPoint → Prop
  | .reading .. | .syncing .. => False
  | .stopping flushed | .stopped flushed | .joining flushed => flushed = .error (.degraded reason)
  | _ => True

theorem ClientPoint.Woken.refused {reason : Degradation} {p q : ClientPoint}
    (h : ClientPoint.Woken p q) (hp : p.Refused reason) : q.Refused reason := by
  cases h with
  | same => exact hp
  | append | flush => trivial

/-- What a flush of a degraded log leads to. -/
theorem Purpose.next_degraded (purpose : Purpose) (reason : Degradation) :
    (purpose.next (.error (.degraded reason))).Refused reason ∧ ∀ reply,
      purpose.next (.error (.degraded reason)) = .idle (some reply) →
        reply = .error (.degraded reason) := by
  cases purpose with
  | flush | read =>
    refine ⟨trivial, fun reply hreply => ?_⟩
    cases hreply
    rfl
  | close => exact ⟨rfl, fun reply hreply => by cases hreply⟩

namespace Machine

open LawfulDevice

variable {δ : Type}

/-- The log has degraded. -/
structure Halted (m : Machine δ) (reason : Degradation) : Prop where
  failure : m.state.failure = some reason
  leaving : m.writer.isLeaving = true
  refused : ∀ (t : Nat) (p : ClientPoint), m.clients[t]? = some p → p.Refused reason

theorem recordExit_failure (m : Machine δ) (panicked : Bool) :
    (m.recordExit panicked).state.failure =
      if panicked ∧ m.state.failure = none then some .writerPanicked else m.state.failure := rfl

/-- Nothing of the log has changed: neither what it has buffered and cached, nor what it has counted,
    nor what is on the device. -/
structure Frozen [Device δ] [LawfulDevice δ] (m m' : Machine δ) : Prop where
  ring : m'.state.ring = m.state.ring
  cache : m'.state.cache = m.state.cache
  pad : m'.state.pad = m.state.pad
  totals : m'.state.totals = m.state.totals
  contents : contents m'.device = contents m.device

/-- What is then the same, of a machine. -/
def frozenParts (m : Machine δ) : Ring × Cache × Nat × Totals × δ :=
  (m.state.ring, m.state.cache, m.state.pad, m.state.totals, m.device)

section

variable [Device δ] {m m' m₁ : Machine δ} {reason : Degradation} {t : Nat} {p p' : ClientPoint}

omit [Device δ] in
theorem Halted.not_sound (h : Halted m reason) : m.state.failure ≠ none := by
  rw [h.failure]
  simp

omit [Device δ] in
theorem Halted.reason_eq (h : Halted m reason) {other : Degradation}
    (hf : m.state.failure = some other) : other = reason := by
  rw [h.failure] at hf
  exact (Option.some.inj hf).symm

omit [Device δ] in
/-- Nobody holds the state lock between two steps. -/
theorem Halted.unlocked (h : Halted m reason) (hx : m.Exclusive) : m.locks.state = none := by
  cases hlock : m.locks.state with
  | none => rfl
  | some holder =>
    obtain ⟨t, p, hp, rfl⟩ := hx.state.client holder hlock
    have hheld := (hx.state.holder t p hp).2 hlock
    cases p with
    | reading => exact (h.refused t _ hp).elim
    | _ => cases hheld

/-- A degraded log asks nothing of its device. -/
theorem Halted.deviceCall?_eq_none (h : Halted m reason) (move : Move) : m.deviceCall? move = none := by
  match move with
  | .submit t request => rfl
  | .step .writer =>
    refine deviceCall?_of_not_inFlight ?_
    have hw := h.leaving
    cases hm : m.writer <;> rw [hm] at hw <;> first | rfl | cases hw
  | .step (.client t) =>
    cases hp : m.clients[t]? with
    | none => simp [deviceCall?, hp]
    | some p =>
      have hrefused := h.refused t p hp
      cases p with
      | reading | syncing => exact hrefused.elim
      | _ => simp only [deviceCall?, hp]

section

variable [LawfulDevice δ]

theorem Frozen.of_parts (h : m'.frozenParts = m.frozenParts) : Frozen m m' := by
  simp only [frozenParts, Prod.mk.injEq] at h
  obtain ⟨hring, hcache, hpad, htotals, hdevice⟩ := h
  exact ⟨hring, hcache, hpad, htotals, by rw [hdevice]⟩

theorem Frozen.refl (m : Machine δ) : Frozen m m := .of_parts rfl

theorem Frozen.trans {m'' : Machine δ} (h : Frozen m m') (h' : Frozen m' m'') : Frozen m m'' where
  ring := h'.ring.trans h.ring
  cache := h'.cache.trans h.cache
  pad := h'.pad.trans h.pad
  totals := h'.totals.trans h.totals
  contents := h'.contents.trans h.contents

theorem Frozen.length_eq (h : Frozen m m') : m'.state.length = m.state.length := by
  rw [LogState.length, LogState.length, h.ring, h.pad]

/-! ### One step of a degraded log -/

/-- In a degraded log a client changes nothing, and a call that it ends is refused. -/
theorem ClientStep.halted {initial : Bytes} {a : Account} (h : Inv initial m a) (hh : Halted m reason)
    (hp : m.clients[t]? = some p) (hs : ClientStep m t p p' m₁) : Frozen m m₁ ∧
      p'.Refused reason ∧ ∀ reply, p' = .idle (some reply) → reply = .error (.degraded reason) := by
  have hrefused := hh.refused t p hp
  have hserves := h.serves t p hp
  have hsound := hh.not_sound
  have hover : ∀ reply : Reply,
      ClientPoint.idle (some (.error (.degraded reason))) = .idle (some reply) →
        reply = .error (.degraded reason) := by
    rintro reply hreply
    cases hreply
    rfl
  cases hs with
  | admitAppend | admitFlush => exact ⟨.of_parts rfl, trivial, nofun⟩
  | refuseAppend _ failed | feedRefused _ _ _ failed | refuseRead _ failed =>
    obtain rfl := hh.reason_eq failed
    exact ⟨.of_parts rfl, trivial, hover⟩
  | feedNothing _ feeds =>
    cases feeds with
    | first sound => exact absurd sound hsound
    | again => exact absurd rfl hserves.1
  | feedBlocked _ _ _ sound | feedPart _ _ sound | feedAll _ _ _ sound | flushNothing _ sound
  | flushPads _ sound | flushWaits _ sound | flushDone _ sound | beginRead _ sound =>
    exact absurd sound hsound
  | @refuseFlush purpose _ _ failed | @flushFails purpose _ _ _ failed =>
    obtain rfl := hh.reason_eq failed
    exact ⟨.of_parts rfl, purpose.next_degraded _⟩
  | readHit | readMiss | readFails | readDone | sync => exact hrefused.elim
  | askToStop | announceStop => exact ⟨.of_parts rfl, hrefused, nofun⟩
  | joinDegraded =>
    replace hrefused : _ = Except.error _ := hrefused
    rw [hrefused]
    exact ⟨.of_parts rfl, trivial, hover⟩
  | join _ _ sound =>
    rw [LogState.isDegraded, hh.failure] at sound
    cases sound

theorem Halted.clientStep {initial : Bytes} {a : Account} (h : Inv initial m a) (hh : Halted m reason)
    (hp : m.clients[t]? = some p) (hs : ClientStep m t p p' m₁) :
    Halted (m₁.setClient t p') reason where
  failure := hs.failure_eq.trans hh.failure
  leaving := (hs.writer_congr wakeForItem_isLeaving).trans hh.leaving
  refused u q hq := by
    rcases (hs.placed hp).cases hq with ⟨rfl, rfl⟩ | ⟨-, hq⟩
    · exact (hs.halted h hh hp).2.1
    · exact hh.refused u q hq

/-- In a degraded log the writer goes on to its end and changes nothing besides. -/
theorem Halted.writerStep (hh : Halted m reason) (hs : WriterStep m m') :
    Frozen m m' ∧ Halted m' reason := by
  have hrefused : ∀ (t : Nat) (p : ClientPoint), m'.clients[t]? = some p → p.Refused reason := by
    intro t p hp
    obtain ⟨q, hq, hwoken⟩ := hs.woken_from hp
    exact hwoken.refused (hh.refused t q hq)
  have hleaving := hh.leaving
  cases hs with
  | loop point | enter point | done point | failed point | panicked point | complete point
  | fail point =>
    rw [point] at hleaving
    cases hleaving
  | record =>
    refine ⟨.of_parts rfl, ⟨?_, rfl, hrefused⟩⟩
    rw [recordExit_failure, if_neg fun hn => hh.not_sound hn.2]
    exact hh.failure
  | announce => exact ⟨.of_parts rfl, ⟨hh.failure, rfl, hrefused⟩⟩

theorem Halted.move {initial : Bytes} {a : Account} (h : Inv initial m a) (hh : Halted m reason)
    {move : Move} (hm : m.move? move = some m') : Frozen m m' ∧ Halted m' reason := by
  match move, hm with
  | .submit t request, hm =>
    obtain ⟨hstate, hwriter, hdevice⟩ := submit?_frame hm
    have hplaced := submit?_placed hm
    have hrefused : ∀ (u : Nat) (q : ClientPoint), m'.clients[u]? = some q → q.Refused reason := by
      intro u q hq
      rcases hplaced.cases hq with ⟨rfl, rfl⟩ | ⟨-, hq⟩
      · cases request <;> trivial
      · exact hh.refused u q hq
    refine ⟨?_, ⟨by rw [hstate, hh.failure], by rw [hwriter, hh.leaving], hrefused⟩⟩
    exact ⟨by rw [hstate], by rw [hstate], by rw [hstate], by rw [hstate], by rw [hdevice]⟩
  | .step .writer, hm => exact hh.writerStep (writerStep?_cases hm)
  | .step (.client t), hm =>
    obtain ⟨p, p', m₁, hp, hs, rfl⟩ := clientStep?_cases hm
    obtain ⟨hring, hcache, hpad, htotals, hcontents⟩ := (hs.halted h hh hp).1
    exact ⟨⟨hring, hcache, hpad, htotals, hcontents⟩, hh.clientStep h hp hs⟩

/-- A call that ends in a degraded log is refused. -/
theorem Halted.reply_eq {initial : Bytes} {a : Account} {past : History δ} {call : Call}
    (h : Inv initial m a) (hh : Halted m reason) (hb : History.Booked past m) {move : Move}
    (hm : m.move? move = some m') (he : History.ending? ⟨m, move, m'⟩ past = some call) :
    call.reply = .error (.degraded reason) := by
  obtain ⟨p, p', m₁, -, hp, hs, -, -, hp', -⟩ := History.ending?_cases hb hm he
  exact (hs.halted h hh hp).2.2 _ hp'

/-! ### How a log degrades -/

/-- A step of the writer that records a failure. -/
inductive Records (m : Machine δ) : Degradation → Machine δ → Prop
  | failed {offset block e} (wrote : m.writer = .wrote offset block (.error e))
    (unlocked : m.locks.state = none) :
    Records m (.writeFailed (offset / m.state.ring.blockSize) e) (m.failWrite offset e)
  | panicked (leaving : m.writer = .leaving true) (unlocked : m.locks.state = none) :
    Records m .writerPanicked (m.recordExit true)

omit [LawfulDevice δ] in
/-- Only the writer degrades a log. -/
theorem records_of_move {move : Move} (hm : m.move? move = some m') (hsound : m.state.failure = none)
    (hf : m'.state.failure = some reason) : Records m reason m' := by
  have hsame : m'.state.failure ≠ m.state.failure := by
    rw [hsound, hf]
    simp
  match move, hm with
  | .submit t request, hm =>
    exact absurd (congrArg LogState.failure (submit?_frame hm).1) hsame
  | .step (.client t), hm =>
    obtain ⟨p, p', m₁, hp, hs, rfl⟩ := clientStep?_cases hm
    exact absurd hs.failure_eq hsame
  | .step .writer, hm =>
    cases writerStep?_cases hm with
    | loop _ _ loop => exact absurd loop.live_frame.2.1 hsame
    | complete _ _ loop => exact absurd loop.live_frame.2.1 hsame
    | enter | done | failed | panicked | announce => exact absurd rfl hsame
    | fail wrote unlocked =>
      cases hf
      exact .failed wrote unlocked
    | @record panicked leaving unlocked =>
      rw [recordExit_failure] at hf
      split at hf
      · rename_i hboth
        obtain ⟨rfl, -⟩ := hboth
        cases hf
        exact .panicked leaving unlocked
      · rw [hsound] at hf
        cases hf

/-- When the writer records a failure, nobody reads, syncs or is closing the log. -/
theorem Records.halted {initial : Bytes} {a : Account} (h : Inv initial m a)
    (hsound : m.state.failure = none) (hr : Records m reason m') : Halted m' reason := by
  have hwrites := h.consistent.writes
  -- the writer has a block, so the log is not drained and the writer not gone
  have hbusy : m.locks.state = none → m.state.ring.blockSize ≤ m.state.ring.filled →
      (∀ panicked, m.writer ≠ .gone panicked) →
      ∀ (t : Nat) (p : ClientPoint), m.clients[t]? = some p → p.Refused reason := by
    intro hfree hfilled hgone t p hp
    have hclosing : ∀ flushed, Closing m.state a flushed → flushed = .error (.degraded reason) := by
      intro flushed hc
      cases flushed with
      | error e => exact absurd hsound (hc.failed e rfl).1
      | ok => exact absurd hfilled (Nat.not_le.2 (hc.drained rfl).filled_lt)
    have hserves := h.serves t p hp
    cases p with
    | reading =>
      have hheld := (h.exclusive.state.holder t _ hp).1 rfl
      rw [hfree] at hheld
      cases hheld
    | syncing =>
      obtain ⟨-, -, panicked, hw⟩ := hserves
      exact absurd hw (hgone panicked)
    | stopping | stopped | joining => exact hclosing _ hserves
    | _ => trivial
  cases hr with
  | failed wrote unlocked =>
    rw [wrote] at hwrites
    exact ⟨rfl, rfl, hbusy unlocked hwrites.2 (by rw [wrote]; simp)⟩
  | panicked leaving unlocked =>
    rw [leaving] at hwrites
    refine ⟨?_, rfl, hbusy unlocked hwrites (by rw [leaving]; simp)⟩
    rw [recordExit_failure, if_pos ⟨rfl, hsound⟩]

/-- What is known about the failure of a log. -/
structure Told (past : History δ) (m : Machine δ) : Prop where
  /-- It is that of the first write that failed, recorded or on its way to be. -/
  cause : past.broken? m.state.ring.blockSize =
    m.state.failure.or (m.writer.unrecorded? m.state.ring.blockSize)
  /-- The block that could not be written is the oldest in the ring. -/
  block : ∀ block e, m.state.failure = some (.writeFailed block e) →
    block = m.state.ring.tailOffset / m.state.ring.blockSize ∧ m.state.ring.blockReady = true
  halted : ∀ reason, m.state.failure = some reason → Halted m reason

omit [LawfulDevice δ] in
theorem broken?_cons (past : History δ) (now : Moment δ) (blockSize : Nat) :
    History.broken? blockSize (now :: past) = (past.broken? blockSize).or
      ((now.before.deviceCall? now.move).bind (DeviceCall.degradation? blockSize)) := by
  rw [History.broken?, History.deviceCalls, List.findSome?_append, ← History.broken?]
  cases now.before.deviceCall? now.move with
  | none => rfl
  | some call =>
    congr 1
    show List.findSome? _ [call] = DeviceCall.degradation? blockSize call
    rw [List.findSome?_singleton]

omit [LawfulDevice δ] in
/-- No call of a client to the device degrades the log. -/
theorem degradation?_client (blockSize : Nat) :
    (m.deviceCall? (.step (.client t))).bind (DeviceCall.degradation? blockSize) = none := by
  simp only [deviceCall?]
  split
  · split <;> rfl
  · rfl
  · rfl

omit [LawfulDevice δ] in
/-- What a step of the writer does to the cause of a failure. -/
theorem WriterStep.cause (hl : Live m) (hs : WriterStep m m') (blockSize : Nat)
    (hb : blockSize = m.state.ring.blockSize) :
    m'.state.failure.or (m'.writer.unrecorded? blockSize) =
      (m.state.failure.or (m.writer.unrecorded? blockSize)).or
        ((m.deviceCall? (.step .writer)).bind (DeviceCall.degradation? blockSize)) := by
  have hsound : m.writer.isLeaving = false → m.state.failure = none := hl.sound_of_not_isLeaving
  have hquiet : ∀ {m₁ : Machine δ}, LoopStep m₁ m' → m₁.state.failure = none →
      m'.state.failure.or (m'.writer.unrecorded? blockSize) = none := by
    intro m₁ hloop hf
    rw [hloop.live_frame.2.1, hf]
    cases hloop <;> rfl
  cases hs with
  | loop point _ loop | complete point _ loop =>
    rw [deviceCall?_of_not_inFlight (by rw [point]; rfl), point]
    rw [point] at hsound
    rw [hquiet loop (hsound rfl), hsound rfl]
    rfl
  | enter point =>
    rw [deviceCall?_of_not_inFlight (by rw [point]; rfl), point]
    exact Option.or_none.symm
  | done point outcome | failed point outcome | panicked point outcome =>
    rw [deviceCall?_of_inFlight point, outcome, point]
    rw [point] at hsound
    show m.state.failure.or _ = _
    rw [hsound rfl]
    rfl
  | fail point =>
    rw [deviceCall?_of_not_inFlight (by rw [point]; rfl), point]
    rw [point] at hsound
    rw [hsound rfl, hb]
    rfl
  | @record panicked point =>
    rw [deviceCall?_of_not_inFlight (by rw [point]; rfl), point, recordExit_failure]
    cases panicked <;> cases m.state.failure <;> rfl
  | announce point =>
    rw [deviceCall?_of_not_inFlight (by rw [point]; rfl), point]
    exact Option.or_none.symm

theorem Told.move {initial : Bytes} {a : Account} {past : History δ} (ht : Told past m)
    (h : Inv initial m a) (hl : Live m) {move : Move} (hm : m.move? move = some m') :
    Told (⟨m, move, m'⟩ :: past) m' := by
  have hblockSize := (h.ring_size hm).2
  refine ⟨?_, fun block e hf => ?_, fun reason hf => ?_⟩
  · rw [broken?_cons, hblockSize, ht.cause]
    match move, hm with
    | .submit t request, hm =>
      obtain ⟨hstate, hwriter, -⟩ := submit?_frame hm
      rw [hstate, hwriter]
      exact Option.or_none
    | .step .writer, hm => exact ((writerStep?_cases hm).cause hl _ rfl).symm
    | .step (.client t), hm =>
      obtain ⟨p, p', m₁, hp, hs, rfl⟩ := clientStep?_cases hm
      show _ = m₁.state.failure.or (m₁.writer.unrecorded? _)
      rw [degradation?_client, Option.or_none, hs.failure_eq,
        hs.writer_congr (WriterPoint.unrecorded?_wakeForItem _)]
  · cases hsound : m.state.failure with
    | some before =>
      obtain ⟨hfrozen, hnext⟩ := (ht.halted before hsound).move h hm
      rw [hnext.failure] at hf
      cases hf
      rw [hfrozen.ring]
      exact ht.block block e hsound
    | none =>
      cases records_of_move hm hsound hf with
      | failed wrote =>
        have hwrites := h.consistent.writes
        rw [wrote] at hwrites
        obtain ⟨rfl, hfilled⟩ := hwrites
        exact ⟨rfl, decide_eq_true hfilled⟩
  · cases hsound : m.state.failure with
    | some before =>
      have hnext := ((ht.halted before hsound).move h hm).2
      rw [hnext.failure] at hf
      cases hf
      exact hnext
    | none => exact (records_of_move hm hsound hf).halted h hsound

/-! ### Runs -/

variable {device : δ} {settings : Settings} {clients : Nat} {m₀ : Machine δ} {past more : History δ}

theorem told_of_reaches (h₀ : open? device settings clients = .ok m₀) (h : Reaches m₀ past m) :
    Told past m := by
  induction h with
  | start =>
    obtain ⟨ring, cache, -, -, rfl⟩ := open?_eq_ok h₀
    exact ⟨rfl, fun block e hf => (by cases hf), fun reason hf => by cases hf⟩
  | move move reached next ih =>
    obtain ⟨⟨flushed, hinv⟩, -⟩ := inv_of_reaches h₀ reached
    exact ih.move hinv (live_of_reaches h₀ reached) next
  | faults d _ _ ih =>
    refine ⟨ih.cause, ih.block, fun reason hf => ?_⟩
    have hh := ih.halted reason hf
    exact ⟨hh.failure, hh.leaving, hh.refused⟩

/-- As long as no write fails, nothing has failed and no failure is on its way. -/
theorem sound_of_writesDone (h₀ : open? device settings clients = .ok m₀) (h : Reaches m₀ past m)
    (hw : past.WritesDone) : Sound m := by
  have hwhole : past.broken? m.state.ring.blockSize = none := by
    refine List.findSome?_eq_none_iff.2 fun call hcall => ?_
    cases call with
    | write offset block outcome =>
      have hdone : outcome = .done := hw _ hcall rfl
      rw [hdone]
      rfl
    | read | sync => rfl
  have hcause := (told_of_reaches h₀ h).cause
  rw [hwhole] at hcause
  obtain ⟨hfailure, hnext⟩ := Option.or_eq_none_iff.1 hcause.symm
  refine ⟨hfailure, fun offset block e hpoint => ?_, fun hpoint => ?_⟩ <;> rw [hpoint] at hnext <;>
    cases hnext

omit [LawfulDevice δ] in
/-- A failure on its way is recorded with the writer's next step, for which it needs the state lock. -/
theorem exists_record (hsound : m.state.failure = none)
    (hnext : m.writer.unrecorded? m.state.ring.blockSize = some reason)
    (hfree : m.locks.state = none) :
    ∃ m', m.step? .writer = some m' ∧ m'.state.failure = some reason := by
  have hstep : m.step? .writer = m.writerStep? := rfl
  unfold WriterPoint.unrecorded? at hnext
  split at hnext <;> cases hnext
  · rename_i offset block e hw
    refine ⟨m.failWrite offset e, ?_, rfl⟩
    rw [hstep, writerStep?, hw]
    exact if_pos hfree
  · rename_i hw
    refine ⟨m.recordExit true, ?_, ?_⟩
    · rw [hstep, writerStep?, hw]
      exact if_pos hfree
    · rw [recordExit_failure, if_pos ⟨rfl, hsound⟩]

/-- What is settled once a log has degraded, wherever a run goes from there. -/
structure Terminal (past : History δ) (m : Machine δ) (reason : Degradation) (more : History δ)
    (m' : Machine δ) : Prop where
  failure : m'.state.failure = some reason
  /-- Every call that ends is refused, whether it was under way or has been given since. -/
  refused : ∃ since, History.calls (more ++ past) = past.calls ++ since ∧
    ∀ c ∈ since, c.reply = .error (.degraded reason)
  /-- Every call ends. -/
  settles : m'.Settles
  /-- The writer has exited, or does so with its next step, which nothing keeps it from. -/
  exits : m'.state.phase = .exited ∨ ∃ m'', m'.step? .writer = some m'' ∧ m''.state.phase = .exited
  exited : m.state.phase = .exited → m'.state.phase = .exited
  deviceCalls : History.deviceCalls (more ++ past) = past.deviceCalls
  contents : LawfulDevice.contents m'.device = LawfulDevice.contents m.device
  length : m'.state.length = m.state.length
  totals : m'.state.totals = m.state.totals
  ring : m'.state.ring = m.state.ring

omit [LawfulDevice δ] in
/-- A writer that has exited stays so. -/
theorem hasExited_of_move {move : Move} (hm : m.move? move = some m')
    (h : m.writer.hasExited = true) : m'.writer.hasExited = true := by
  match move, hm with
  | .submit t request, hm =>
    rw [(submit?_frame hm).2.1]
    exact h
  | .step .writer, hm =>
    cases writerStep?_cases hm with
    | announce => rfl
    | loop point | enter point | done point | failed point | panicked point | complete point
    | fail point | record point =>
      rw [point] at h
      cases h
  | .step (.client t), hm =>
    obtain ⟨p, p', m₁, -, hs, rfl⟩ := clientStep?_cases hm
    exact hs.hasExited_eq.trans h

omit [LawfulDevice δ] in
/-- Nothing keeps the writer of a degraded log from saying that it has left. -/
theorem Halted.exits (hh : Halted m reason) (hx : m.Exclusive)
    (hphase : m.state.phase = .exited ↔ m.writer.hasExited = true) :
    m.state.phase = .exited ∨ ∃ m', m.step? .writer = some m' ∧ m'.state.phase = .exited := by
  have hfree := hh.unlocked hx
  have hleaving := hh.leaving
  cases hw : m.writer with
  | leaving panicked =>
    refine .inr ⟨m.recordExit panicked, ?_, rfl⟩
    show m.writerStep? = _
    rw [writerStep?, hw]
    exact if_pos hfree
  | announcing | gone =>
    rw [hw] at hphase
    exact .inl (hphase.2 rfl)
  | _ =>
    rw [hw] at hleaving
    cases hleaving

/-- From a degraded log every run leads to the same log, degraded, with every call refused. -/
theorem Halted.terminal (h₀ : open? device settings clients = .ok m₀) (h : Reaches m₀ past m)
    (hh : Halted m reason) (h' : Reaches m more m') :
    Halted m' reason ∧ Frozen m m' ∧ Terminal past m reason more m' := by
  have hexited := exited_iff_of_reaches h₀ h
  have hends : ∀ {more : History δ} {m' : Machine δ}, Reaches m more m' → Halted m' reason →
      m'.Settles ∧ (m'.state.phase = .exited ∨
        ∃ m'', m'.step? .writer = some m'' ∧ m''.state.phase = .exited) := by
    intro more m' h' hh'
    obtain ⟨⟨flushed, hinv⟩, -⟩ := inv_of_reaches h₀ (h.trans h')
    exact ⟨settles_of_reaches h₀ (h.trans h'),
      hh'.exits hinv.exclusive (exited_iff_of_reaches h₀ (h.trans h'))⟩
  induction h' with
  | start =>
    obtain ⟨hsettles, hexits⟩ := hends .start hh
    exact ⟨hh, .refl m, hh.failure, ⟨[], (List.append_nil _).symm, fun c hc => by cases hc⟩, hsettles,
      hexits, id, rfl, rfl, rfl, rfl, rfl⟩
  | @move more m₁ m₂ move reached next ih =>
    obtain ⟨hh₁, hfrozen₁, ht⟩ := ih
    have hreached := h.trans reached
    obtain ⟨⟨flushed, hinv⟩, -⟩ := inv_of_reaches h₀ hreached
    obtain ⟨hfrozen, hh₂⟩ := hh₁.move hinv next
    have hall := hfrozen₁.trans hfrozen
    obtain ⟨hsettles, hexits⟩ := hends (reached.move move next) hh₂
    obtain ⟨since, hcalls, hrefused⟩ := ht.refused
    refine ⟨hh₂, hall, hh₂.failure,
      ⟨since ++ (History.ending? ⟨m₁, move, m₂⟩ (more ++ past)).toList, ?_, fun c hc => ?_⟩,
      hsettles, hexits, fun hphase => ?_, ?_, hall.contents, hall.length_eq, hall.totals, hall.ring⟩
    · rw [List.cons_append, History.calls, hcalls, List.append_assoc]
    · rcases List.mem_append.1 hc with hc | hc
      · exact hrefused c hc
      · exact hh₁.reply_eq hinv (History.booked_of_reaches h₀ hreached) next (Option.mem_toList.1 hc)
    · have hwas := (exited_iff_of_reaches h₀ hreached).1 (ht.exited hphase)
      exact (exited_iff_of_reaches h₀ (h.trans (reached.move move next))).2
        (hasExited_of_move next hwas)
    · rw [List.cons_append, History.deviceCalls, hh₁.deviceCall?_eq_none move, ht.deviceCalls]
      exact List.append_nil _
  | @faults more m₁ d reached same ih =>
    obtain ⟨hh₁, hfrozen₁, ht⟩ := ih
    have hh₂ : Halted (m₁.withDevice d) reason := ⟨hh₁.failure, hh₁.leaving, hh₁.refused⟩
    have hall : Frozen m (m₁.withDevice d) := hfrozen₁.trans ⟨rfl, rfl, rfl, rfl, same.2⟩
    obtain ⟨hsettles, hexits⟩ := hends (reached.faults d same) hh₂
    exact ⟨hh₂, hall, hh₂.failure, ht.refused, hsettles, hexits, ht.exited, ht.deviceCalls,
      hall.contents, hall.length_eq, hall.totals, hall.ring⟩

/-! ### What a failed write leaves alone -/

omit [LawfulDevice δ] in
theorem ClientStep.append_fits {data : Bytes} (hs : ClientStep m t (.appendAdmitted data) p' m₁)
    (hsound : m.state.failure = none) (hfits : data.length ≤ m.state.ring.free) :
    p' = .idle (some (.ok (.offset m.state.ring.endOffset))) := by
  cases hs with
  | feedNothing _ feeds | feedAll _ feeds =>
    cases feeds
    rfl
  | refuseAppend _ failed | feedRefused _ _ _ failed =>
    rw [hsound] at failed
    cases failed
  | feedBlocked _ feeds more _ full =>
    cases feeds
    rw [full] at hfits
    exact absurd (List.eq_nil_of_length_eq_zero (Nat.le_zero.1 hfits)) more
  | feedPart _ feeds _ _ short =>
    cases feeds
    omega

/-- An append for which there is room does not wait for the device, nor ask it for anything. -/
theorem Inv.append_fits {initial : Bytes} {a : Account} (h : Inv initial m a) {data : Bytes}
    (hp : m.clients[t]? = some (.appendAdmitted data)) (hsound : m.state.failure = none)
    (hfits : data.length ≤ m.state.ring.free) (hfree : m.locks.state = none) :
    ∃ m', m.step? (.client t) = some m' ∧ m'.reply? t = some (.ok (.offset m.state.length)) := by
  have hend := h.consistent.buffers.endOffset_eq (h.draining_eq_false hp rfl rfl) hsound
  rw [← h.consistent.buffers.length_eq] at hend
  have hfeeds : Feeds m (.appendAdmitted data) data data m.state.ring.endOffset := .first hsound
  obtain ⟨p', m₁, hs, hfeed⟩ := feedAppend_cases t hfree hfeeds
  have hstep : m.step? (.client t) = some (m₁.setClient t p') := by
    show m.clientStep? t = _
    simp only [clientStep?, hp, beginAppend?, hfree, hsound, ↓reduceIte, hfeed]
  refine ⟨_, hstep, ?_⟩
  rw [reply?, (hs.placed hp).self, hs.append_fits hsound hfits, ← hend]
  rfl

/-- No close says that the writer has panicked: the failure that this records comes first. -/
theorem ClientStep.reply_ne_writerPanicked {initial : Bytes} {a : Account} (h : Inv initial m a)
    (hp : m.clients[t]? = some p) (hs : ClientStep m t p p' m₁) :
    p' ≠ .idle (some (.error .writerPanicked)) := by
  have hserves := h.serves t p hp
  have hnext : ∀ (purpose : Purpose) (size : Nat),
      purpose.next (.ok size) ≠ .idle (some (.error .writerPanicked)) := by
    intro purpose size hn
    cases purpose with
    | flush | close => cases hn
    | read =>
      unfold Purpose.next at hn
      dsimp only at hn
      split at hn <;> cases hn
  have hrefused : ∀ (purpose : Purpose) (reason : Degradation), purpose.next (.error (.degraded reason)) ≠
      .idle (some (.error .writerPanicked)) := by
    intro purpose reason hn
    have hreply := (purpose.next_degraded reason).2 _ hn
    cases hreply
  cases hs with
  | flushNothing | flushDone => exact hnext _ _
  | refuseFlush | flushFails => exact hrefused _ _
  | @joinDegraded flushed panicked _ _ failed =>
    cases flushed with
    | ok =>
      rw [LogState.isDegraded, (hserves.drained rfl).sound] at failed
      cases failed
    | error e =>
      obtain ⟨-, reason, rfl⟩ := hserves.failed e rfl
      simp [closeReply]
  | @sync flushed joined =>
    obtain ⟨hclosing, rfl, -⟩ := hserves
    cases flushed with
    | error e =>
      obtain ⟨-, reason, rfl⟩ := hclosing.failed e rfl
      simp [closeReply]
    | ok => cases (Device.sync m.device).outcome <;> simp [closeReply, Except.mapError]
  | _ => simp

theorem reply_ne_writerPanicked (h₀ : open? device settings clients = .ok m₀) (h : Reaches m₀ past m) :
    ∀ c ∈ past.calls, c.reply ≠ .error .writerPanicked := by
  induction h with
  | start => exact fun c hc => by cases hc
  | move move reached next ih =>
    intro c hc hreply
    rcases List.mem_append.1 hc with hc | hc
    · exact ih c hc hreply
    · obtain ⟨⟨flushed, hinv⟩, -⟩ := inv_of_reaches h₀ reached
      obtain ⟨p, p', m₁, -, hp, hs, -, -, hp', -⟩ := History.ending?_cases
        (History.booked_of_reaches h₀ reached) next (Option.mem_toList.1 hc)
      rw [hreply] at hp'
      exact hs.reply_ne_writerPanicked hinv hp hp'
  | faults d _ _ ih => exact ih

/-- A write that fails ends the log, and does nothing else to it.

    An append for which there is room is answered without the device. The first write that fails is
    recorded as soon as the writer gets the state lock. From then on the log is degraded: it says
    what it was that failed, either the write of the oldest block in the ring, with the device's
    error, or the writer itself, and however a run goes on from there, nothing about the log
    changes and every call is refused with that reason. A close never blames the writer for having
    panicked. -/
theorem write_failure_terminal (h₀ : open? device settings clients = .ok m₀) (h : Reaches m₀ past m) :
    (∀ t data, m.clients[t]? = some (.appendAdmitted data) → m.state.failure = none →
      data.length ≤ m.state.ring.free → m.locks.state = none →
      ∃ m', m.step? (.client t) = some m' ∧ m'.reply? t = some (.ok (.offset m.state.length))) ∧
    (past.broken? (Device.blockSize device) =
        m.state.failure.or (m.writer.unrecorded? (Device.blockSize device)) ∧
      ∀ reason, m.state.failure = none →
        m.writer.unrecorded? (Device.blockSize device) = some reason → m.locks.state = none →
        ∃ m', m.step? .writer = some m' ∧ m'.state.failure = some reason) ∧
    (∀ reason, m.state.failure = some reason →
      ((∃ block e, reason = .writeFailed block e ∧
          block = m.state.ring.tailOffset / Device.blockSize device ∧
          m.state.ring.blockReady = true ∧
          reason.message = s!"write of block {block} failed: " ++ e.message) ∨
        reason = .writerPanicked ∧ reason.message = "background writer panicked") ∧
      ∀ more m', Reaches m more m' → Terminal past m reason more m') ∧
    ∀ c ∈ past.calls, c.reply ≠ .error .writerPanicked := by
  obtain ⟨⟨flushed, hinv⟩, -, hblockSize⟩ := inv_of_reaches h₀ h
  have htold := told_of_reaches h₀ h
  rw [← hblockSize]
  refine ⟨fun t data hp hsound hfits hfree => hinv.append_fits hp hsound hfits hfree,
    ⟨htold.cause, fun reason hsound hnext hfree => exists_record hsound hnext hfree⟩,
    fun reason hf => ⟨?_, fun more m' h' => ?_⟩, reply_ne_writerPanicked h₀ h⟩
  · cases reason with
    | writeFailed block e =>
      obtain ⟨hblock, hready⟩ := htold.block block e hf
      exact .inl ⟨block, e, rfl, hblock, hready, rfl⟩
    | writerPanicked => exact .inr ⟨rfl, rfl⟩
  · exact ((htold.halted reason hf).terminal h₀ h h').2.2

/-- The device refuses a write while an append waits for space; then it would work again, and nothing is
    appended. -/
theorem write_failure_terminal_cleared : ∃ (m₀ m m' : Machine Device.Memory)
    (past more : History Device.Memory),
    open? { blockSize := 2, contents := .ofList [], refusesWrites := true }
      { bufferBlocks := 1, cacheBlocks := 1 } 1 = .ok m₀ ∧
    Reaches m₀ past m ∧ m.state.failure = some (.writeFailed 0 (.io .injectedWrite)) ∧
    Reaches m more m' ∧ m'.device.refusesWrites = false ∧
    (History.calls (more ++ past)).map (fun c => (c.request, c.reply)) =
      [(.append [1, 2, 3], .error (.degraded (.writeFailed 0 (.io .injectedWrite)))),
        (.append [], .error (.degraded (.writeFailed 0 (.io .injectedWrite))))] ∧
    Terminal past m (.writeFailed 0 (.io .injectedWrite)) more m' := by
  let before : List Move :=
    [.submit 0 (.append [1, 2, 3]), .step (.client 0), .step (.client 0), .step .writer, .step .writer,
      .step .writer, .step .writer]
  let after : List Move :=
    [.step .writer, .step .writer, .step (.client 0), .submit 0 (.append []), .step (.client 0),
      .step (.client 0)]
  have h₀ : open? ({ blockSize := 2, contents := .ofList [], refusesWrites := true } : Device.Memory)
      { bufferBlocks := 1, cacheBlocks := 1 } 1 = .ok _ := rfl
  have hcleared (m : Machine Device.Memory) :
      Reaches m [] (m.withDevice { m.device with refusesWrites := false }) :=
    .faults _ .start ⟨rfl, rfl⟩
  refine ⟨_, _, _, _, _, h₀, reaches_run? before (by decide +kernel), by decide +kernel,
    (hcleared _).trans (reaches_run? after (by decide +kernel)), by decide +kernel, by decide +kernel, ?_⟩
  exact ((write_failure_terminal h₀ (reaches_run? before (by decide +kernel))).2.2.1 _
    (by decide +kernel)).2 _ _ ((hcleared _).trans (reaches_run? after (by decide +kernel)))

end

end

end Machine

end BlockLog
