import BlockLog.Proofs.Log.Degradation
import BlockLog.Proofs.Log.Flushed
import BlockLog.Proofs.Log.Lookup

/-! A read that the device fails. The read ends with the error of the device, the slot that was to be
    filled has no block, and apart from that the log is as the flush of the read has left it. So
    nothing is lost, and as soon as the device reads again the read can be made again.

        read:      flush ──▶ block ──▶ block ──▶ block ──✗  error of the device
                             hit       miss      miss
                             └─ counted ────┘    └ its slot is vacant
        later:     flush ──▶ block ──▶ block ──▶ block ──▶ block ──▶ the bytes -/

namespace BlockLog

/-- The flush of a call that is a flush or a read is over and has gone through. -/
def ClientPoint.isPastFlush : ClientPoint → Bool
  | .readCalled .. | .reading .. => true
  | .idle (some (.ok _)) | .idle (some (.error (.device _))) => true
  | .idle (some (.error (.readPastEnd ..))) => true
  | _ => false

theorem ClientPoint.Woken.isPastFlush {p q : ClientPoint} (h : ClientPoint.Woken p q) :
    q.isPastFlush = p.isPastFlush := by
  cases h <;> rfl

/-- A read that has made a lookup that failed has ended with it. -/
theorem Reads.of_error {blockSize offset len : Nat} {lookups : List Lookup} {p : ClientPoint}
    (h : Reads blockSize offset len lookups p) {l : Lookup} (hl : l ∈ lookups) {e : DeviceError}
    (herror : l.copied = .error e) : p = .idle (some (.error (.device e))) ∧
      ∃ earlier got, lookups = earlier ++ [l] ∧ Covers blockSize offset len got earlier ∧
        got.length < len ∧ l.segment = Machine.segment blockSize offset len got.length ∧
        l.hit = false := by
  have hfailed := Lookup.succeeded_eq_false_iff.2 ⟨e, herror⟩
  have hnot : ∀ {got earlier}, Covers blockSize offset len got earlier → l ∉ earlier := by
    intro got earlier hcovers hmem
    rw [hcovers.succeeded l hmem] at hfailed
    cases hfailed
  have hsome : lookups ≠ [] := List.ne_nil_of_mem hl
  cases p with
  | flushCalled | flushAdmitted | flushWaiting | readCalled => exact absurd h.2 hsome
  | reading => exact absurd hl (hnot h.2)
  | idle last =>
    match last, h with
    | some (.ok _), ⟨_, _, _, hcovers⟩ => exact absurd hl (hnot hcovers)
    | some (.error (.device e')), h =>
      obtain ⟨covers, more, segment, miss, error⟩ : BreaksOff blockSize offset len e' lookups := h
      rcases List.mem_append.1 hl with hl | hl
      · exact absurd hl (hnot covers)
      · obtain rfl := List.mem_singleton.1 hl
        cases herror.symm.trans error
        exact ⟨rfl, _, _, rfl, covers, more, segment, miss⟩
    | some (.error (.readPastEnd ..)), h | some (.error (.degraded _)), h
    | some (.error (.outOfMemory _)), h | some (.error (.settings _)), h
    | some (.error .writerPanicked), h => exact absurd h hsome
  | _ => cases h

/-- No device call of client `t` has failed. -/
def History.UnfailingFor {δ : Type} [Device δ] (t : Nat) (past : History δ) : Prop :=
  ∀ now ∈ past, now.move = .step (.client t) →
    ∀ call ∈ now.before.deviceCall? now.move, call.Succeeded

instance {δ : Type} [Device δ] (t : Nat) (past : History δ) : Decidable (past.UnfailingFor t) :=
  inferInstanceAs (Decidable (∀ now ∈ past, now.move = .step (.client t) →
    ∀ call ∈ now.before.deviceCall? now.move, call.Succeeded))

namespace Machine

open LawfulDevice

variable {δ : Type} [Device δ] [LawfulDevice δ] {initial log : Bytes} {m m' m₁ : Machine δ}
  {a : Account} {t offset len : Nat} {p p' : ClientPoint} {past during retry : History δ}

/-! ### The lookup that fails -/

/-- A lookup of client `t` has failed. Its read has ended with the error of the device, and the slot of
    its block has no block. The rest of the log is as it was. -/
structure LookupFailed (m m' : Machine δ) (t : Nat) (l : Lookup) (e : DeviceError) : Prop where
  reply : m'.reply? t = some (.error (.device e))
  state : m'.state = { m.state with cache := m'.state.cache }
  contents : contents m'.device = contents m.device
  writer : m'.writer = m.writer
  vacant : m'.state.cache.Vacant l.block
  slots : ∀ i, i ≠ m.state.cache.placeOf l.block →
    m'.state.cache.slot? i = m.state.cache.slot? i

omit [LawfulDevice δ] in
theorem vacant_fetching (h : m.state.cache.Valid) {block : Nat} {e : DeviceError}
    (error : (Device.read m.device (block * m.state.ring.blockSize)
      m.state.ring.blockSize).outcome = .error e) :
    (m.fetching block).state.cache.Vacant block ∧ ∀ i, i ≠ m.state.cache.placeOf block →
      (m.fetching block).state.cache.slot? i = m.state.cache.slot? i := by
  simp only [fetching, error]
  exact Cache.vacant_install_error h block _ e

theorem Consistent.lookupFailed (h : Consistent initial m a) (hm : m.step? (.client t) = some m')
    {l : Lookup} (hl : m.lookup? (.step (.client t)) = some l) {e : DeviceError}
    (herror : l.copied = .error e) : LookupFailed m m' t l e := by
  obtain ⟨u, offset, len, got, hu, hp, more, hsegment, hcase⟩ := lookup?_eq_some hl
  cases hu
  obtain ⟨q, p', m₁, hq, hs, rfl⟩ := clientStep?_cases hm
  cases hp.symm.trans hq
  have hself := (hs.placed hq).self
  have hblock : l.block = (offset + got.length) / m.state.ring.blockSize := by
    rw [Lookup.block, hsegment]
    rfl
  rcases hcase with ⟨block, -, -, hcopied⟩ | ⟨hmiss, -, hcopied⟩
  · rw [hcopied] at herror
    cases herror
  · rw [hblock] at hmiss hcopied
    cases hs with
    | readHit more hit => cases hmiss.symm.trans hit
    | readMiss more miss free hb ok =>
      subst hb
      rw [hcopied, ok] at herror
      cases herror
    | readFails more miss free hb error =>
      subst hb
      rw [hcopied, error] at herror
      cases herror
      obtain ⟨hvacant, hslots⟩ := vacant_fetching h.caches.valid error
      exact
        { reply := congrArg (·.bind ClientPoint.reply?) hself
          state := rfl
          contents := contents_read ..
          writer := rfl
          vacant := by rw [hblock]; exact hvacant
          slots := by rw [hblock]; exact hslots }
    | readDone complete => exact absurd more (Nat.not_lt.2 complete)
    | feedNothing _ feeds | feedRefused _ feeds | feedBlocked _ feeds | feedPart _ feeds
    | feedAll _ feeds => cases feeds

/-! ### A flush that is alone, by itself or as the first part of a read -/

/-- Once its flush has gone through, a read leaves the log flushed. -/
theorem ClientStep.flushed_of_isPastFlush (h : Inv initial m a) (hl : Live m)
    (hphase : m.writer.isResting = true → m.state.phase = .waiting) (hp : m.clients[t]? = some p)
    (hs : ClientStep m t p p' m₁) {purpose : Purpose} (hne : purpose ≠ .close)
    (hreq : p.request? = some purpose.request)
    (hbefore : p.isPastFlush = true → Flushed initial a.log m) (hpast : p'.isPastFlush = true) :
    Flushed initial a.log (m₁.setClient t p') := by
  have hends : ∀ purpose size, p.flushes? = some purpose → p' = Purpose.next purpose (.ok size) →
      Flushed initial a.log (m₁.setClient t p') := fun _ _ => hs.flushed h hl hphase hp
  cases hs with
  | flushNothing | flushDone => exact hends _ _ rfl rfl
  | @refuseFlush purpose' | @flushFails purpose' => cases purpose' <;> cases hpast
  | beginRead | readHit | readDone =>
    exact (hbefore rfl).frame rfl rfl rfl rfl rfl rfl rfl rfl
  | readMiss | readFails =>
    exact (hbefore rfl).frame rfl rfl rfl rfl rfl rfl rfl (contents_read ..)
  | admitFlush | flushPads | flushWaits | refuseRead => cases hpast
  | feedNothing _ feeds | feedRefused _ feeds | feedBlocked _ feeds | feedPart _ feeds
  | feedAll _ feeds => cases feeds <;> cases purpose <;> cases hreq
  | admitAppend | refuseAppend => cases purpose <;> cases hreq
  | _ =>
    cases purpose with
    | flush | read => cases hreq
    | close => exact absurd rfl hne

variable {device : δ} {settings : Settings} {clients : Nat} {m₀ : Machine δ}

/-- A flush or a read that runs alone pushes nothing, and once its flush has gone through, the log is
    flushed. -/
theorem flushed_of_alone (h₀ : open? device settings clients = .ok m₀) (h : Reaches m₀ past m)
    {purpose : Purpose} (hne : purpose ≠ .close)
    (hgiven : m.submit? t purpose.request = some m₁) (halone : Reaches m₁ during m')
    (honly : during.OnlyBy t) :
    History.log (during ++ ⟨m, .submit t purpose.request, m₁⟩ :: past) = past.log ∧
    ∃ p, m'.clients[t]? = some p ∧ (p.isIdle = true ∨ p.request? = some purpose.request) ∧
      (p.isPastFlush = true → Flushed (contents device) past.log m') := by
  have hbegun := h.submit hgiven
  induction halone with
  | start =>
    refine ⟨History.log_submit .., _, (submit?_placed hgiven).self, .inr (Request.request?_entry _), ?_⟩
    cases purpose <;> nofun
  | @move during m m' move reached next ih =>
    obtain ⟨hrest, hmove⟩ := honly.cons
    obtain ⟨hlog, p, hp, hreq, hflushed⟩ := ih hrest
    have hreached := hbegun.trans reached
    obtain ⟨⟨flushed, hinv⟩, -⟩ := inv_of_reaches h₀ hreached
    rw [List.cons_append, History.log, hlog]
    rcases hmove with rfl | rfl
    · have hs := writerStep?_cases next
      obtain ⟨q, hq, hwoken⟩ := hs.exists_woken hp
      refine ⟨List.append_nil _, q, hq, ?_, ?_⟩
      · rw [hwoken.isIdle, hwoken.request?]
        exact hreq
      · rw [hwoken.isPastFlush]
        exact fun hpast => (hflushed hpast).writerStep hinv.consistent.buffers.ring.blockSize_pos hs
    · obtain ⟨q, p', m₂, hq, hs, rfl⟩ := clientStep?_cases next
      cases hp.symm.trans hq
      have hbusy : p.request? = some purpose.request :=
        hreq.resolve_left (by rw [hs.not_idle]; exact Bool.false_ne_true)
      have hquiet : p.isAppending = false := by
        cases p with
        | appendAdmitted | appendWaiting => cases purpose <;> cases hbusy
        | _ => rfl
      have hpast := hs.flushed_of_isPastFlush hinv (live_of_reaches h₀ hreached)
        (phase_of_reaches h₀ hreached) hp hne hbusy
      rw [hlog] at hpast
      refine ⟨?_, p', (hs.placed hp).self, ?_, hpast hflushed⟩
      · rw [pushes_eq_nil hp (.inl hquiet), List.append_nil]
      · rcases hs.request? with ⟨reply, rfl⟩ | hgoes
        · exact .inl rfl
        · exact .inr (hgoes.trans hbusy)
  | faults d _ same ih =>
    obtain ⟨hlog, p, hp, hreq, hflushed⟩ := ih honly
    exact ⟨hlog, p, hp, hreq, fun hpast => (hflushed hpast).faults same⟩

theorem flushed_of_alone_read (h₀ : open? device settings clients = .ok m₀) (h : Reaches m₀ past m)
    (hgiven : m.submit? t (.read offset len) = some m₁) (halone : Reaches m₁ during m')
    (honly : during.OnlyBy t) :
    History.log (during ++ ⟨m, .submit t (.read offset len), m₁⟩ :: past) = past.log ∧
    ∃ p, m'.clients[t]? = some p ∧ (p.isIdle = true ∨ p.request? = some (.read offset len)) ∧
      (p.isPastFlush = true → Flushed (contents device) past.log m') :=
  flushed_of_alone h₀ h (show Purpose.read offset len ≠ .close from nofun) hgiven halone honly

/-! ### A read that is alone -/

omit [LawfulDevice δ] in
/-- The writer leaves a slot without a block as it is. -/
theorem WriterStep.vacant (hs : WriterStep m m') {block : Nat} (h : m.state.cache.Vacant block) :
    m'.state.cache.Vacant block := by
  have hloop : ∀ {m₀ : Machine δ}, LoopStep m₀ m' → m₀.state.cache.Vacant block →
      m'.state.cache.Vacant block := by
    intro m₀ hl hv
    cases hl with
    | take => exact hv.evict _
    | sleep | leave => exact hv
  cases hs with
  | loop _ _ loop => exact hloop loop h
  | complete _ _ loop => exact hloop loop (h.evict _)
  | fail => exact h.evict _
  | _ => exact h

/-- Whatever a read looks up while it runs alone is part of the log; and where a lookup has failed, its
    slot has no block. -/
theorem lookups_of_alone (h₀ : open? device settings clients = .ok m₀) (h : Reaches m₀ past m)
    (hgiven : m.submit? t (.read offset len) = some m₁) (halone : Reaches m₁ during m')
    (honly : during.OnlyBy t) {l : Lookup} (hl : l ∈ during.lookups) :
    offset + len ≤ past.log.length ∧
      (l.succeeded = false → m'.state.cache.Vacant l.block) := by
  have hbegun := h.submit hgiven
  induction halone with
  | start => cases hl
  | @move during m m' move reached next ih =>
    obtain ⟨hrest, hmove⟩ := honly.cons
    have hreached := hbegun.trans reached
    obtain ⟨⟨flushed, hinv⟩, -⟩ := inv_of_reaches h₀ hreached
    rw [History.lookups, List.mem_append, Option.mem_toList] at hl
    rcases hmove with rfl | rfl
    · obtain ⟨hrange, hvacant⟩ := ih hrest (hl.resolve_right fun hwriter => by cases hwriter)
      exact ⟨hrange, fun hfailed => (writerStep?_cases next).vacant (hvacant hfailed)⟩
    · obtain ⟨p, hp, hreads⟩ := reads_of_reaches h₀ h hgiven reached hrest
      rcases hl with hl | hl
      · obtain ⟨hrange, -⟩ := ih hrest hl
        refine ⟨hrange, fun hfailed => ?_⟩
        -- the read is over, and its client takes no step any more
        obtain ⟨e, herror⟩ := Lookup.succeeded_eq_false_iff.1 hfailed
        obtain ⟨q, p', m₂, hq, hs, -⟩ := clientStep?_cases next
        cases hp.symm.trans hq
        have hidle := hs.not_idle
        rw [(hreads.of_error hl herror).1] at hidle
        cases hidle
      · refine ⟨?_, fun hfailed => ?_⟩
        · obtain ⟨u, start, count, got, hu, hq, -⟩ := lookup?_eq_some hl
          cases hu
          cases hp.symm.trans hq
          obtain ⟨⟨rfl, rfl⟩, -⟩ := hreads
          have hrange := (hinv.serves t _ hp).1.1
          have hle := hinv.flushed_le_length
          have hlog := (flushed_of_alone_read h₀ h hgiven reached hrest).1
          rw [← hlog]
          exact Nat.le_trans hrange hle
        · obtain ⟨e, herror⟩ := Lookup.succeeded_eq_false_iff.1 hfailed
          exact (hinv.consistent.lookupFailed next hl herror).vacant
  | faults d _ _ ih => exact ih honly hl

/-! ### The read made again -/

/-- A read within the log that ends while the device does its part ends with the bytes of the log. -/
theorem ClientStep.reply_of_read (h : Inv initial m a) (hsound : Sound m)
    (hd : ∀ call, m.deviceCall? (.step (.client t)) = some call → call.Succeeded)
    (hp : m.clients[t]? = some p) (hs : ClientStep m t p p' m₁)
    (hreq : p.request? = some (.read offset len)) (hrange : offset + len ≤ a.log.length)
    {reply : Reply} (hp' : p' = .idle (some reply)) :
    reply = .ok (.bytes (a.log.slice offset len)) := by
  have hserves := h.serves t p hp
  have hnext : ∀ {purpose : Purpose} {size : Nat}, size = a.log.length →
      some purpose.request = some (.read offset len) → purpose.next (.ok size) ≠ p' := by
    intro purpose size hsize hpurpose hn
    cases purpose <;> cases hpurpose
    rw [Purpose.next, if_neg (by omega), hp'] at hn
    cases hn
  cases hs with
  | refuseFlush _ failed | flushFails _ failed | refuseRead _ failed => exact absurd failed hsound.not_failed
  | flushNothing _ sound =>
    have hend := h.consistent.buffers.endOffset_eq (h.draining_eq_false hp rfl rfl) sound
    exact absurd rfl (hnext hend hreq)
  | flushDone _ _ empty =>
    have hend := h.consistent.buffers.endOffset_settle empty
    rw [hserves.1] at hend
    exact absurd rfl (hnext hend hreq)
  | readFails more miss free hblock error =>
    have hok : _ = Except.ok () := hd _ (deviceCall?_of_reading hp more miss)
    rw [← hblock, error] at hok
    cases hok
  | @readDone start count got complete =>
    cases hreq
    cases hp'
    obtain ⟨-, hle, hgot⟩ := hserves
    rw [Nat.le_antisymm hle complete] at hgot
    rw [← hgot]
  | feedNothing _ feeds | feedRefused _ feeds | feedAll _ feeds => cases feeds <;> cases hreq
  | refuseAppend | joinDegraded | sync => cases hreq
  | _ => cases hp'

/-- A read within the log goes on, whatever the other clients do, until it ends with the bytes of the
    log, if no write has failed and no read of its own does. -/
theorem reread (h₀ : open? device settings clients = .ok m₀) (h : Reaches m₀ past m)
    (hgiven : m.submit? t (.read offset len) = some m₁) (hretry : Reaches m₁ retry m')
    (hnone : retry.lastCall t = none)
    (hw : (retry ++ ⟨m, .submit t (.read offset len), m₁⟩ :: past).WritesDone)
    (hd : retry.UnfailingFor t) (hrange : offset + len ≤ past.log.length) : ∃ p, m'.clients[t]? = some p ∧
      (p.request? = some (.read offset len) ∨
        p = .idle (some (.ok (.bytes (past.log.slice offset len))))) := by
  have hbegun := h.submit hgiven
  have hgrows : ∀ more, ∃ pushed,
      History.log (more ++ ⟨m, .submit t (.read offset len), m₁⟩ :: past) = past.log ++ pushed := by
    intro more
    rw [← History.log_submit m m₁ t (.read offset len) past]
    exact History.log_append more _
  induction hretry with
  | start => exact ⟨_, (submit?_placed hgiven).self, .inl rfl⟩
  | @move retry m m' move reached next ih =>
    obtain ⟨hcalls, hearlier⟩ := List.forall_mem_cons.1 hd
    obtain ⟨hwrites, -⟩ := hw.cons
    match move, next, hnone with
    | .submit u request, next, hnone =>
      rw [History.lastCall] at hnone
      dsimp only at hnone
      split at hnone
      · cases hnone
      · rename_i hut
        obtain ⟨p, hp, hgoes⟩ := ih hnone hwrites hearlier
        exact ⟨p, ((submit?_placed next).other (Ne.symm hut)).trans hp, hgoes⟩
    | .step .writer, next, hnone =>
      obtain ⟨p, hp, hgoes⟩ := ih hnone hwrites hearlier
      obtain ⟨q, hq, hwoken⟩ := (writerStep?_cases next).exists_woken hp
      refine ⟨q, hq, ?_⟩
      rcases hgoes with hbusy | rfl
      · exact .inl (hwoken.request?.trans hbusy)
      · cases hwoken
        exact .inr rfl
    | .step (.client u), next, hnone =>
      obtain ⟨p, hp, hgoes⟩ := ih hnone hwrites hearlier
      obtain ⟨q, q', m₂, hq, hs, rfl⟩ := clientStep?_cases next
      by_cases hut : u = t
      · subst hut
        cases hp.symm.trans hq
        refine ⟨q', (hs.placed hp).self, ?_⟩
        have hbusy : p.request? = some (.read offset len) := by
          refine hgoes.resolve_right fun hidle => ?_
          have hnot := hs.not_idle
          rw [hidle] at hnot
          cases hnot
        rcases hs.request? with ⟨reply, hreply⟩ | hsame
        · have hreached := hbegun.trans reached
          obtain ⟨⟨flushed, hinv⟩, -⟩ := inv_of_reaches h₀ hreached
          obtain ⟨pushed, hlog⟩ := hgrows retry
          rw [hlog] at hinv
          have hanswer := hs.reply_of_read hinv (sound_of_writesDone h₀ hreached hwrites) (hcalls rfl) hp
            hbusy (by rw [List.length_append]; exact Nat.le_add_right_of_le hrange) hreply
          rw [Bytes.slice_append_of_le hrange] at hanswer
          exact .inr (hreply.trans (by rw [hanswer]))
        · exact .inl (hsame.trans hbusy)
      · exact ⟨p, ((hs.placed hq).other (Ne.symm hut)).trans hp, hgoes⟩
  | faults d _ _ ih => exact ih hnone hw hd

/-- A client that goes on with its call or has ended it with `answer` does not answer anything else, and
    where nobody can move it has answered. -/
theorem Settles.answers {request : Request} {answer : Reply} (hs : m.Settles)
    (hp : m.clients[t]? = some p)
    (hgoes : p.request? = some request ∨ p = .idle (some answer)) :
    (∀ reply, m.reply? t = some reply → reply = answer) ∧
      ((∀ actor, m.step? actor = none) → m.reply? t = some answer) := by
  have hreply : m.reply? t = p.reply? := by
    rw [Machine.reply?, hp]
    rfl
  rw [hreply]
  rcases hgoes with hbusy | rfl
  · refine ⟨fun reply hr => ?_, fun hstuck => ?_⟩
    · cases p with
      | idle => cases hbusy
      | _ => cases hr
    · have hidle := hs.idle hstuck p (List.mem_of_getElem? hp)
      cases p with
      | idle => cases hbusy
      | _ => cases hidle
  · exact ⟨fun reply hr => (Option.some.inj hr).symm, fun _ => rfl⟩

/-! ### What is left -/

/-- The same of a log is buffered, and the same is on the device. -/
structure SameLeft (m m' : Machine δ) : Prop where
  length : m'.state.length = m.state.length
  tailOffset : m'.state.ring.tailOffset = m.state.ring.tailOffset
  queue : m'.state.ring.queue = m.state.ring.queue
  failure : m'.state.failure = m.state.failure
  contents : contents m'.device = contents m.device

theorem Flushed.sameLeft (hf : Flushed initial log m) (hf' : Flushed initial log m')
    (hblockSize : m'.state.ring.blockSize = m.state.ring.blockSize) : SameLeft m m' where
  length := hf'.length_eq.trans hf.length_eq.symm
  tailOffset := by rw [hf'.tailOffset, hf.tailOffset, hblockSize]
  queue := by rw [hf'.queue, hf.queue, hblockSize]
  failure := hf'.sound.trans hf.sound.symm
  contents := by rw [hf'.contents, hf.contents, hblockSize]

/-- A read of `len` bytes at `offset`, alone on a log from `m` on, has ended at `m'` with lookup `l`, which
    the device has failed. Besides its flush, what is left of it are the lookups before that. -/
structure BrokenRead (initial log : Bytes) (blockSize : Nat) (m m' : Machine δ) (t offset len : Nat)
    (lookups : List Lookup) (l : Lookup) (e : DeviceError) : Prop where
  reply : m'.reply? t = some (.error (.device e))
  flushed : Flushed initial log m'
  blocks : lookups.map Lookup.block <+: touched blockSize offset len
  counted : ∃ earlier, lookups = earlier ++ [l] ∧ l.hit = false ∧
    (∀ l' ∈ earlier, l'.succeeded = true) ∧
    m'.state.totals.hits = m.state.totals.hits + earlier.countP Lookup.hit ∧
    m'.state.totals.misses = m.state.totals.misses + earlier.countP (fun l' => !l'.hit)
  vacant : m'.state.cache.Vacant l.block

theorem brokenRead (h₀ : open? device settings clients = .ok m₀) (h : Reaches m₀ past m)
    (hgiven : m.submit? t (.read offset len) = some m₁) (halone : Reaches m₁ during m')
    (honly : during.OnlyBy t) {l : Lookup} (hl : l ∈ during.lookups) {e : DeviceError}
    (herror : l.copied = .error e) :
    BrokenRead (contents device) past.log (Device.blockSize device) m m' t offset len
      during.lookups l e := by
  obtain ⟨p, hp, hreads⟩ := reads_of_reaches h₀ h hgiven halone honly
  obtain ⟨rfl, earlier, got, hlookups, hcovers, hmore, hsegment, hmiss⟩ := hreads.of_error hl herror
  have hfailed : l.succeeded = false := Lookup.succeeded_eq_false_iff.2 ⟨e, herror⟩
  obtain ⟨-, q, hq, -, hflushed⟩ := flushed_of_alone_read h₀ h hgiven halone honly
  cases hp.symm.trans hq
  obtain ⟨hhits, hmisses⟩ := counted_of_reaches halone
  obtain ⟨⟨flushed, hinv⟩, -, hblockSize⟩ := inv_of_reaches h₀ h
  have hpos := hinv.consistent.buffers.ring.blockSize_pos
  rw [hblockSize] at hpos
  exact
    { reply := by
        rw [Machine.reply?, hp]
        rfl
      flushed := hflushed rfl
      blocks := by
        rw [hlookups]
        exact hcovers.blocks_snoc hpos hmore hsegment
      counted := by
        refine ⟨earlier, hlookups, hmiss, hcovers.succeeded, ?_, ?_⟩
        · rw [hhits, hlookups, (submit?_frame hgiven).1, List.countP_append, List.countP_singleton,
            hmiss]
          rfl
        · rw [hmisses, hlookups, (submit?_frame hgiven).1, List.countP_append, List.countP_singleton,
            Lookup.fetched, hfailed, hcovers.countP_eq.2, Bool.and_false]
          rfl
      vacant := (lookups_of_alone h₀ h hgiven halone honly hl).2 hfailed }

/-- A read that fails on the device loses nothing. Whatever others do, the lookup that fails ends the read
    with the error of the device, leaves its slot vacant and changes nothing else. A read that was
    alone leaves what a flush alone would have left, and counts the lookups before. And the same read
    made later, by any client and after any calls, answers the bytes of the log, if no write has
    failed and its own device reads do not. -/
theorem failed_read_retryable (h₀ : open? device settings clients = .ok m₀) (h : Reaches m₀ past m) :
    (∀ t l e m', m.step? (.client t) = some m' → m.lookup? (.step (.client t)) = some l →
      l.copied = .error e → LookupFailed m m' t l e) ∧
    ∀ t offset len m₁ during m' l e, m.submit? t (.read offset len) = some m₁ →
      Reaches m₁ during m' → during.OnlyBy t → l ∈ during.lookups → l.copied = .error e →
      BrokenRead (contents device) past.log (Device.blockSize device) m m' t offset len
        during.lookups l e ∧
      (∀ u n₁ flushing n', m.submit? u .flush = some n₁ → Reaches n₁ flushing n' →
        flushing.OnlyBy u → n'.reply? u = some (.ok .done) → SameLeft n' m') ∧
      (∀ u between m₂ m₃ retry m₄, Reaches m' between m₂ →
        m₂.submit? u (.read offset len) = some m₃ → Reaches m₃ retry m₄ →
        retry.lastCall u = none → retry.UnfailingFor u →
        past.WritesDone → during.WritesDone → between.WritesDone → retry.WritesDone →
        m₄.Settles ∧
        (∀ reply, m₄.reply? u = some reply → reply = .ok (.bytes (past.log.slice offset len))) ∧
        ((∀ actor, m₄.step? actor = none) →
          m₄.reply? u = some (.ok (.bytes (past.log.slice offset len))))) := by
  obtain ⟨⟨flushed, hinv⟩, -⟩ := inv_of_reaches h₀ h
  refine ⟨fun t l e m' hm hl herror => hinv.consistent.lookupFailed hm hl herror,
    fun t offset len m₁ during m' l e hgiven halone honly hl herror => ⟨?_, ?_, ?_⟩⟩
  · exact brokenRead h₀ h hgiven halone honly hl herror
  · intro u n₁ flushing n' hgiven' halone' honly' hreply
    obtain ⟨-, p, hp, -, hflushed⟩ :=
      flushed_of_alone h₀ h (show Purpose.flush ≠ .close from nofun) hgiven' halone' honly'
    cases (idle_of_reply? hreply).symm.trans hp
    obtain ⟨-, -, hblockSize⟩ := inv_of_reaches h₀ ((h.submit hgiven).trans halone)
    obtain ⟨-, -, hblockSize'⟩ := inv_of_reaches h₀ ((h.submit hgiven').trans halone')
    exact (hflushed rfl).sameLeft (brokenRead h₀ h hgiven halone honly hl herror).flushed
      (hblockSize.trans hblockSize'.symm)
  · intro u between m₂ m₃ retry m₄ hbetween hgiven' hretry hnone hd hpast hduring hbetweenw hretryw
    have hreached := ((h.submit hgiven).trans halone).trans hbetween
    obtain ⟨hrange, -⟩ := lookups_of_alone h₀ h hgiven halone honly hl
    obtain ⟨hlog, -⟩ := flushed_of_alone_read h₀ h hgiven halone honly
    obtain ⟨pushed, hgrown⟩ := History.log_append between _
    rw [hlog] at hgrown
    have hw := (((hpast.submit m m₁ t (.read offset len)).append hduring).append
      hbetweenw).submit m₂ m₃ u (.read offset len) |>.append hretryw
    obtain ⟨p, hp, hgoes⟩ := reread h₀ hreached hgiven' hretry hnone hw hd
      (by rw [hgrown, List.length_append]; exact Nat.le_add_right_of_le hrange)
    rw [hgrown, Bytes.slice_append_of_le hrange] at hgoes
    have hsettles := settles_of_reaches h₀ ((hreached.submit hgiven').trans hretry)
    exact ⟨hsettles, hsettles.answers hp hgoes⟩

/-- A read of two blocks, of which the first is cached, while the device refuses reads; then the same
    read when it does not. -/
theorem failed_read_retryable_cleared : ∃ (m₀ m m₁ m' m₂ m₃ m₄ : Machine Device.Memory)
    (past during retry : History Device.Memory) (l : Lookup),
    open? { blockSize := 2, contents := .ofList [] } { bufferBlocks := 2, cacheBlocks := 2 } 1 =
      .ok m₀ ∧ Reaches m₀ past m ∧ m.device.refusesReads = true ∧
    m.submit? 0 (.read 0 3) = some m₁ ∧ Reaches m₁ during m' ∧ during.OnlyBy 0 ∧
    during.lookups.map Lookup.hit = [true, false] ∧ l ∈ during.lookups ∧
    BrokenRead [] past.log 2 m m' 0 0 3 during.lookups l (.io .injectedRead) ∧
    Reaches m' [] m₂ ∧ m₂.device.refusesReads = false ∧ m₂.submit? 0 (.read 0 3) = some m₃ ∧
    Reaches m₃ retry m₄ ∧ m₄.reply? 0 = some (.ok (.bytes [1, 2, 3])) ∧
    past.log.slice 0 3 = [1, 2, 3] := by
  let steps (n : Nat) : List Move := List.replicate n (.step (.client 0))
  let drain : List Move := List.replicate 4 (.step .writer)
  let moves : List Move := .submit 0 (.append [1, 2, 3]) :: steps 2 ++ drain ++
    .submit 0 (.read 0 2) :: steps 2 ++ drain ++ steps 4
  have h₀ : open? ({ blockSize := 2, contents := .ofList [] } : Device.Memory)
      { bufferBlocks := 2, cacheBlocks := 2 } 1 = .ok _ := rfl
  have hset (m : Machine Device.Memory) (refuses : Bool) :
      Reaches m [] (m.withDevice { m.device with refusesReads := refuses }) :=
    .faults _ .start ⟨rfl, rfl⟩
  obtain ⟨hbroken, -, hretried⟩ :=
    (failed_read_retryable h₀ ((reaches_run? moves (by decide +kernel)).trans (hset _ true))).2 0 0 3
      _ _ _ _ (.io .injectedRead) (Option.some_get (by decide +kernel)).symm
      (reaches_run? (steps 2 ++ drain ++ steps 4) (by decide +kernel)) (by decide +kernel)
      (List.get_mem _ ⟨1, by decide +kernel⟩) (by decide +kernel)
  refine ⟨_, _, _, _, _, _, _, _, _, _, _, h₀,
    (reaches_run? moves (by decide +kernel)).trans (hset _ true), by decide +kernel,
    (Option.some_get (by decide +kernel)).symm,
    reaches_run? (steps 2 ++ drain ++ steps 4) (by decide +kernel), by decide +kernel,
    by decide +kernel, List.get_mem _ ⟨1, by decide +kernel⟩, hbroken, hset _ false,
    by decide +kernel, (Option.some_get (by decide +kernel)).symm,
    reaches_run? (steps 2 ++ drain ++ steps 5) (by decide +kernel), by decide +kernel, ?_⟩
  have hanswer := (hretried 0 [] _ _ _ _ (hset _ false) (Option.some_get (by decide +kernel)).symm
    (reaches_run? (steps 2 ++ drain ++ steps 5) (by decide +kernel)) (by decide +kernel)
    (by decide +kernel) (by decide +kernel) (by decide +kernel) (by decide +kernel)
    (by decide +kernel)).2.1 (.ok (.bytes [1, 2, 3])) (by decide +kernel)
  exact Answer.bytes.inj (Except.ok.inj hanswer.symm)

end Machine

end BlockLog
