import BlockLog.Proofs.Log.Invariant

/-! Every step keeps the invariant, and so does every run. The account goes along: a step of a client
    adds what it pushes to the log, a step of the writer says how much of the log is on the device
    now, and a flush that ends covers the whole log. -/

namespace BlockLog

/-- The client has been let in to append. -/
def ClientPoint.isAppending : ClientPoint → Bool
  | .appendAdmitted _ | .appendWaiting .. => true
  | _ => false

/-- The flush of a read is over, and the read is not. -/
def ClientPoint.isReading : ClientPoint → Bool
  | .readCalled .. | .reading .. => true
  | _ => false

namespace Machine

open LawfulDevice

variable {δ : Type} [Device δ]

/-! ### What a step of a client does to the account -/

section

variable {m m₁ : Machine δ} {t : Nat} {p p' : ClientPoint}

omit [Device δ] in
theorem pushes_of_feeds (hp : m.clients[t]? = some p) {data rest : Bytes} {offset : Nat}
    (hf : Feeds m p data rest offset) (hsound : m.state.failure = none) :
    m.pushes (.step (.client t)) = rest.take m.state.ring.free := by
  cases hf with
  | first sound => simp only [pushes, hp, hsound, ↓reduceIte, Ring.take_push_snd]
  | again => simp only [pushes, hp, hsound, ↓reduceIte, Ring.take_push_snd]

omit [Device δ] in
/-- Only an append pushes, and only while nothing has failed. -/
theorem pushes_eq_nil (hp : m.clients[t]? = some p)
    (h : p.isAppending = false ∨ m.state.failure ≠ none) : m.pushes (.step (.client t)) = [] := by
  rcases h with h | h
  · cases p with
    | appendAdmitted => cases h
    | appendWaiting => cases h
    | _ => simp only [pushes, hp]
  · cases p <;> simp only [pushes, hp, if_neg h]

omit [Device δ] in
/-- Nor does an append push that has nothing to push or no space for it. -/
theorem pushes_of_feeds_eq_nil (hp : m.clients[t]? = some p) {data rest : Bytes} {offset : Nat}
    (hf : Feeds m p data rest offset) (h : rest = [] ∨ m.state.ring.free = 0) :
    m.pushes (.step (.client t)) = [] := by
  by_cases hsound : m.state.failure = none
  · rw [pushes_of_feeds hp hf hsound]
    rcases h with rfl | hfull
    · exact List.take_nil
    · rw [hfull, List.take_zero]
  · exact pushes_eq_nil hp (.inr hsound)

/-- A client never writes to the device. -/
theorem deviceCall?_client_ne_write (offset : Nat) (block : Bytes) (outcome : WriteOutcome) :
    m.deviceCall? (.step (.client t)) ≠ some (.write offset block outcome) := by
  simp only [deviceCall?]
  split
  · split <;> simp
  · simp
  · simp

theorem durable_deviceCall?_client (length durable : Nat) :
    DeviceCall.durable (m.deviceCall? (.step (.client t))) length durable = durable := by
  unfold DeviceCall.durable
  split
  · exact absurd ‹_› (deviceCall?_client_ne_write _ _ _)
  · rfl

end

/-- A step of client `t` that takes the account from `a` to `a'` and serves the client where it goes. -/
structure Served [LawfulDevice δ] (initial : Bytes) (m m₁ : Machine δ) (t : Nat) (p p' : ClientPoint)
    (a a' : Account) : Prop where
  log : a'.log = a.log ++ m.pushes (.step (.client t))
  durable : a'.durable = a.durable
  flushed : a.flushed ≤ a'.flushed
  covers : a'.flushed = a.flushed ∨
    a'.flushed = a.log.length ∧ p.holdsAppend = true ∧ p.isAppending = false
  consistent : Consistent initial m₁ a'
  serves : Serves m₁ a' p'
  held : p.holdsAppend = true ∨ m.pushes (.step (.client t)) = [] ∧
    m₁.state.pad = m.state.pad ∧ m₁.state.draining = m.state.draining
  draining : m₁.state.draining = true →
    p'.isFlushWaiting = true ∨ m.state.draining = true ∧ p.isFlushWaiting = false

section

variable [LawfulDevice δ] {initial : Bytes} {m m₁ : Machine δ} {t : Nat} {p p' : ClientPoint}
  {a : Account}

/-- A step that leaves the account alone. -/
theorem Served.quiet (hpush : m.pushes (.step (.client t)) = []) (hc : Consistent initial m₁ a)
    (hserves : Serves m₁ a p') (hpad : m₁.state.pad = m.state.pad)
    (hdrain : m₁.state.draining = m.state.draining)
    (hwaits : p.isFlushWaiting = false ∨ p'.isFlushWaiting = true) :
    Served initial m m₁ t p p' a a where
  log := by rw [hpush, List.append_nil]
  durable := rfl
  flushed := Nat.le_refl _
  covers := .inl rfl
  consistent := hc
  serves := hserves
  held := .inr ⟨hpush, hpad, hdrain⟩
  draining hd := by
    rcases hwaits with hp | hp'
    · exact .inr ⟨hdrain ▸ hd, hp⟩
    · exact .inl hp'

omit [Device δ] [LawfulDevice δ] in
theorem isFlushWaiting_of_feeds {data rest : Bytes} {offset : Nat} (hf : Feeds m p data rest offset) :
    p.isFlushWaiting = false := by
  cases hf <;> rfl

/-- A step that pushes. -/
theorem Served.pushing (h : Inv initial m a) (hp : m.clients[t]? = some p) {data rest : Bytes}
    {offset : Nat} (hf : Feeds m p data rest offset) (hsound : m.state.failure = none)
    (hs : SameLog (m.pushing rest) m₁)
    (hserves : Serves m₁ { a with log := a.log ++ rest.take m.state.ring.free } p') :
    Served initial m m₁ t p p' a { a with log := a.log ++ rest.take m.state.ring.free } := by
  obtain ⟨hheld, hdrain, -, -⟩ := h.feeds hp hf
  exact
    { log := by rw [pushes_of_feeds hp hf hsound]
      durable := rfl
      flushed := Nat.le_refl _
      covers := .inl rfl
      consistent := (h.consistent.push hdrain hsound rest).frame hs
      serves := hserves
      held := .inl hheld
      draining := fun hd => by
        rw [hs.draining, show (m.pushing rest).state.draining = false from hdrain] at hd
        cases hd }

/-- A step that ends a flush of the whole log. -/
theorem Served.flush (hp : m.clients[t]? = some p) (hheld : p.holdsAppend = true)
    (happend : p.isAppending = false) (h : Inv initial m a)
    (hc : Consistent initial m₁ { a with flushed := a.log.length })
    (hserves : Serves m₁ { a with flushed := a.log.length } p') (hdrain : m₁.state.draining = false) :
    Served initial m m₁ t p p' a { a with flushed := a.log.length } where
  log := by rw [pushes_eq_nil hp (.inl happend), List.append_nil]
  durable := rfl
  flushed := h.flushed_le_length
  covers := .inr ⟨rfl, hheld, happend⟩
  consistent := hc
  serves := hserves
  held := .inl hheld
  draining hd := by
    rw [hdrain] at hd
    cases hd

/-- A step that leaves all of the log alone. -/
theorem Served.still (h : Inv initial m a) (hpush : m.pushes (.step (.client t)) = [])
    (hsame : SameLog m m₁) (hserves : Serves m₁ a p') (hwaits : p.isFlushWaiting = false) :
    Served initial m m₁ t p p' a a :=
  .quiet hpush (h.consistent.frame hsame) hserves hsame.pad hsame.draining (.inl hwaits)

/-- A step of a client that has been let in to append. -/
theorem ClientStep.served_append (h : Inv initial m a) (hp : m.clients[t]? = some p)
    (happend : p.isAppending = true) (hs : ClientStep m t p p' m₁) :
    ∃ a', Served initial m m₁ t p p' a a' := by
  cases hs with
  | refuseAppend _ failed =>
    exact ⟨a, .still h (pushes_eq_nil hp (.inr (by simp [failed]))) (.of_parts rfl) trivial rfl⟩
  | feedNothing _ feeds =>
    exact ⟨a, .still h (pushes_of_feeds_eq_nil hp feeds (.inl rfl)) (.of_parts rfl) trivial
      (isFlushWaiting_of_feeds feeds)⟩
  | feedRefused _ feeds _ failed =>
    exact ⟨a, .still h (pushes_eq_nil hp (.inr (by simp [failed]))) (.of_parts rfl) trivial
      (isFlushWaiting_of_feeds feeds)⟩
  | feedBlocked _ feeds more _ full =>
    obtain ⟨-, -, hoffset, hdata⟩ := h.feeds hp feeds
    exact ⟨a, .still h (pushes_of_feeds_eq_nil hp feeds (.inr full)) (.of_parts rfl)
      ⟨more, hoffset, hdata⟩ (isFlushWaiting_of_feeds feeds)⟩
  | feedPart _ feeds sound _ short =>
    obtain ⟨-, -, hoffset, hdata⟩ := h.feeds hp feeds
    refine ⟨_, .pushing h hp feeds sound (.of_parts rfl) ⟨?_, ?_, ?_⟩⟩
    · rw [Ne, List.drop_eq_nil_iff]
      omega
    · rw [List.length_append]
      omega
    · rw [List.drop_append_of_le_length hoffset, List.append_assoc, List.take_append_drop]
      exact hdata
  | feedAll _ feeds _ sound => exact ⟨_, .pushing h hp feeds sound (.of_parts rfl) trivial⟩
  | _ => cases happend

/-- A step of a client that holds the append lock for a flush. -/
theorem ClientStep.served_flush (h : Inv initial m a) (hp : m.clients[t]? = some p)
    (hheld : p.holdsAppend = true) (happend : p.isAppending = false)
    (hs : ClientStep m t p p' m₁) : ∃ a', Served initial m m₁ t p p' a a' := by
  have hc := h.consistent
  have hserves := h.serves t p hp
  have hpush := pushes_eq_nil hp (.inl happend)
  cases hs with
  | @refuseFlush purpose _ _ failed =>
    exact ⟨a, .still h hpush (.of_parts rfl) (serves_next_error purpose failed) rfl⟩
  | @flushNothing purpose _ sound empty =>
    have hdrain := h.draining_eq_false hp rfl rfl
    have hend := hc.buffers.endOffset_eq hdrain sound
    exact ⟨_, .flush hp hheld happend h ((hc.flush empty).frame (.of_parts rfl))
      (serves_next_ok purpose hend (h.drained sound empty)) hdrain⟩
  | flushPads _ sound =>
    exact ⟨a,
      { log := by rw [hpush, List.append_nil]
        durable := rfl
        flushed := Nat.le_refl _
        covers := .inl rfl
        consistent := hc.padding (h.draining_eq_false hp rfl rfl) sound
        serves := ⟨rfl, rfl⟩
        held := .inl hheld
        draining := fun _ => .inl rfl }⟩
  | flushWaits => exact ⟨a, .quiet hpush hc hserves rfl rfl (.inr rfl)⟩
  | @flushFails purpose _ _ _ failed =>
    exact ⟨a,
      { log := by rw [hpush, List.append_nil]
        durable := rfl
        flushed := Nat.le_refl _
        covers := .inl rfl
        consistent := (hc.failFlush failed).frame (.of_parts rfl)
        serves := serves_next_error purpose failed
        held := .inl hheld
        draining := fun hd => by cases hd }⟩
  | @flushDone purpose pad _ sound empty =>
    obtain ⟨rfl, -⟩ := hserves
    have hend := hc.buffers.endOffset_settle empty
    exact ⟨_, .flush hp hheld happend h ((hc.settle empty).frame (.of_parts rfl))
      (serves_next_ok purpose hend ⟨rfl, sound, hc.buffers.settle_filled_lt empty⟩) rfl⟩
  | feedNothing _ feeds | feedRefused _ feeds | feedBlocked _ feeds | feedPart _ feeds
  | feedAll _ feeds => cases feeds <;> cases happend
  | refuseAppend => cases happend
  | _ => cases hheld

/-- A block that has what has been flushed of the log takes a read one segment further. -/
theorem Serves.segment (h : Consistent initial m a) {offset len : Nat} {got block : Bytes}
    (hlen : block.length = m.state.ring.blockSize)
    (hagrees : ∀ i, i < m.state.ring.blockSize →
      (offset + got.length) / m.state.ring.blockSize * m.state.ring.blockSize + i < a.flushed →
      block[i]? =
        a.log[(offset + got.length) / m.state.ring.blockSize * m.state.ring.blockSize + i]?)
    (hserves : Serves m a (.reading offset len got)) :
    Serves m a (.reading offset len
      (got ++ block.slice ((offset + got.length) % m.state.ring.blockSize)
        (segment m.state.ring.blockSize offset len got.length).count)) := by
  obtain ⟨hrange, hgot, hslice⟩ := hserves
  have hpos := h.buffers.ring.blockSize_pos
  obtain ⟨hlength, hle, -⟩ := length_append_segment offset hpos hlen hgot
  exact ⟨hrange, hlength ▸ hle, append_segment_eq hpos hlen hrange.1 hagrees hgot hslice⟩

/-- What has been flushed of the log is in the blocks that are fetched. -/
theorem Consistent.fetched_agrees (h : Consistent initial m a) {block : Nat}
    (ok : (Device.read m.device (block * m.state.ring.blockSize) m.state.ring.blockSize).outcome =
      .ok ()) {i : Nat} (hi : i < m.state.ring.blockSize)
    (hlt : block * m.state.ring.blockSize + i < a.flushed) :
    ((m.state.cache.slotOf block).buffer.overlay (Device.read m.device
      (block * m.state.ring.blockSize) m.state.ring.blockSize).bytes)[i]? =
      a.log[block * m.state.ring.blockSize + i]? := by
  have hflushed := h.flushed_le
  rw [(h.filled_eq block ok).1, Bytes.getElem?_slice, if_pos hi]
  exact h.lands.getElem?_contents (by omega)

/-- A step of a read whose flush is over. -/
theorem ClientStep.served_read (h : Inv initial m a) (hp : m.clients[t]? = some p)
    (hread : p.isReading = true) (hs : ClientStep m t p p' m₁) :
    ∃ a', Served initial m m₁ t p p' a a' := by
  have hc := h.consistent
  have hserves := h.serves t p hp
  cases hs with
  | refuseRead | readDone =>
    exact ⟨a, .still h (pushes_eq_nil hp (.inl rfl)) (.of_parts rfl) trivial rfl⟩
  | beginRead =>
    exact ⟨a, .still h (pushes_eq_nil hp (.inl rfl)) (.of_parts rfl) ⟨hserves, Nat.zero_le _, rfl⟩ rfl⟩
  | readHit more hit =>
    have hlen := (Cache.length_get? hc.caches.valid hit).trans hc.caches.blockSize_eq
    exact ⟨a, .still h (pushes_eq_nil hp (.inl rfl)) (.of_parts rfl)
      (hserves.segment hc hlen (hc.caches.agrees _ _ hit)) rfl⟩
  | readMiss more miss free hblock ok =>
    subst hblock
    obtain ⟨hfilled, hlen⟩ := hc.filled_eq _ ok
    rw [← hfilled] at hlen
    have hnext := hserves.segment hc hlen fun i => hc.fetched_agrees ok
    exact ⟨a, .quiet (pushes_eq_nil hp (.inl rfl)) ((hc.fetch _).frame (.of_parts rfl)) hnext rfl rfl
      (.inl rfl)⟩
  | @readFails _ _ _ block =>
    exact ⟨a, .quiet (pushes_eq_nil hp (.inl rfl)) ((hc.fetch block).frame (.of_parts rfl)) trivial rfl
      rfl (.inl rfl)⟩
  | feedNothing _ feeds | feedRefused _ feeds | feedBlocked _ feeds | feedPart _ feeds
  | feedAll _ feeds => cases feeds <;> cases hread
  | _ => cases hread

/-- A step of a close whose flush is over. -/
theorem ClientStep.served_close (h : Inv initial m a) (hp : m.clients[t]? = some p)
    (hheld : p.holdsAppend = false) (hclosing : p.isClosing = true)
    (hs : ClientStep m t p p' m₁) : ∃ a', Served initial m m₁ t p p' a a' := by
  have hserves := h.serves t p hp
  cases hs with
  | admitFlush | joinDegraded =>
    exact ⟨a, .still h (pushes_eq_nil hp (.inl rfl)) (.of_parts rfl) trivial rfl⟩
  | askToStop =>
    exact ⟨a, .still h (pushes_eq_nil hp (.inl rfl)) (.of_parts rfl)
      ⟨fun hf => ⟨(hserves.drained hf).flushed, (hserves.drained hf).sound,
        (hserves.drained hf).filled_lt⟩, hserves.failed⟩ rfl⟩
  | announceStop =>
    exact ⟨a, .still h (pushes_eq_nil hp (.inl rfl))
      { SameLog.of_parts (m := m) rfl with writer := .inr rfl } hserves rfl⟩
  | @join _ panicked gone _ sound =>
    -- a writer that panicked has degraded the log
    have hjoined : joinResult panicked = .ok () := by
      have hwrites := h.consistent.writes
      rw [gone] at hwrites
      cases panicked with
      | false => rfl
      | true =>
        rw [LogState.isDegraded, Option.isSome_eq_false_iff, Option.isNone_iff_eq_none] at sound
        exact absurd sound hwrites
    exact ⟨a, .still h (pushes_eq_nil hp (.inl rfl)) (.of_parts rfl) ⟨hserves, hjoined, _, gone⟩ rfl⟩
  | sync =>
    exact ⟨a, .still h (pushes_eq_nil hp (.inl rfl))
      { ring := rfl, cache := rfl, pad := rfl, draining := rfl, failure := rfl
        contents := contents_sync _, blockSize := blockSize_sync _, writer := .inl rfl } trivial rfl⟩
  | feedNothing _ feeds | feedRefused _ feeds | feedBlocked _ feeds | feedPart _ feeds
  | feedAll _ feeds => cases feeds <;> cases hclosing
  | refuseFlush | flushNothing | flushPads | flushWaits | flushFails | flushDone => cases hheld
  | _ => cases hclosing

/-- Every step of a client serves it. -/
theorem ClientStep.served (h : Inv initial m a) (hp : m.clients[t]? = some p)
    (hs : ClientStep m t p p' m₁) : ∃ a', Served initial m m₁ t p p' a a' := by
  cases p with
  | idle => cases hs with
    | feedNothing _ feeds | feedRefused _ feeds | feedBlocked _ feeds | feedPart _ feeds
    | feedAll _ feeds => cases feeds
  | appendCalled => cases hs with
    | admitAppend => exact ⟨a, .still h (pushes_eq_nil hp (.inl rfl)) (.of_parts rfl) trivial rfl⟩
    | feedNothing _ feeds | feedRefused _ feeds | feedBlocked _ feeds | feedPart _ feeds
    | feedAll _ feeds => cases feeds
  | flushCalled => cases hs with
    | admitFlush => exact ⟨a, .still h (pushes_eq_nil hp (.inl rfl)) (.of_parts rfl) trivial rfl⟩
    | feedNothing _ feeds | feedRefused _ feeds | feedBlocked _ feeds | feedPart _ feeds
    | feedAll _ feeds => cases feeds
  | appendAdmitted | appendWaiting => exact hs.served_append h hp rfl
  | flushAdmitted | flushWaiting => exact hs.served_flush h hp rfl rfl
  | readCalled | reading => exact hs.served_read h hp rfl
  | stopping | stopped | joining | syncing => exact hs.served_close h hp rfl rfl

end

/-! ### One step -/

/-- What a move does to the account. -/
structure Accounts (m : Machine δ) (move : Move) (a a' : Account) : Prop where
  log : a'.log = a.log ++ m.pushes move
  durable : a'.durable = DeviceCall.durable (m.deviceCall? move) a.log.length a.durable
  flushed : a.flushed ≤ a'.flushed
  /-- Only a client that holds the append lock for a flush covers more, and then everything. -/
  covers : a'.flushed = a.flushed ∨ a'.flushed = a.log.length ∧
    ∃ (t : Nat) (p : ClientPoint), m.clients[t]? = some p ∧ p.holdsAppend = true ∧
      p.isAppending = false

section

variable [LawfulDevice δ] {initial : Bytes} {m m' m₁ : Machine δ} {a : Account}

theorem Inv.clientStep (h : Inv initial m a) {t : Nat} {p p' : ClientPoint}
    (hp : m.clients[t]? = some p) (hs : ClientStep m t p p' m₁) :
    ∃ a', Accounts m (.step (.client t)) a a' ∧ Inv initial (m₁.setClient t p') a' := by
  obtain ⟨a', hserved⟩ := hs.served h hp
  have ht : t < m.clients.length := (List.getElem?_eq_some_iff.1 hp).1
  have hplaced := hs.placed hp
  refine ⟨a', ⟨hserved.log, ?_, hserved.flushed,
    hserved.covers.imp_right fun h => ⟨h.1, t, p, hp, h.2⟩⟩, ?_⟩
  · rw [durable_deviceCall?_client]
    exact hserved.durable
  · exact
      { exclusive := h.exclusive.clientStep hp hs
        consistent := hserved.consistent.frame (.of_parts rfl)
        serves := by
          intro u q hq
          rcases hplaced.cases hq with ⟨rfl, rfl⟩ | ⟨hut, hq⟩
          · exact (serves_setClient u).2 hserved.serves
          · have hu : u < m.clients.length := (List.getElem?_eq_some_iff.1 hq).1
            refine (h.serves u q hq).mono .same hserved.log hserved.flushed h.flushed_le_length
              (fun hheld => ?_) (fun hone => ?_) fun hclosing => ?_
            · rcases hserved.held with hmine | hquiet
              · exact absurd (h.exclusive.append_unique hp hq hmine hheld) hut
              · exact hquiet
            · rw [hplaced.length] at hone
              omega
            · have hidle := (h.exclusive.closing u q hq hclosing).2 t p (Ne.symm hut) hp
              rw [hs.not_idle] at hidle
              cases hidle
        flushing := by
          intro hd
          rcases hserved.draining hd with hmine | ⟨hd', hnot⟩
          · exact ⟨t, p', hplaced.self, hmine⟩
          · obtain ⟨u, q, hq, hwaits⟩ := h.flushing hd'
            have hut : u ≠ t := by
              rintro rfl
              rw [hp] at hq
              cases hq
              rw [hnot] at hwaits
              cases hwaits
            exact ⟨u, q, (hplaced.other hut).trans hq, hwaits⟩ }

omit [LawfulDevice δ] in
/-- What the writer leaves alone of the state. -/
theorem WriterStep.state_eq (hs : WriterStep m m') :
    m'.state.pad = m.state.pad ∧ m'.state.draining = m.state.draining := by
  cases hs with
  | loop _ _ loop => cases loop <;> exact ⟨rfl, rfl⟩
  | complete _ _ loop => cases loop <;> exact ⟨rfl, rfl⟩
  | _ => exact ⟨rfl, rfl⟩

omit [LawfulDevice δ] in
/-- A writer that is gone takes no step. -/
theorem WriterStep.not_gone (hs : WriterStep m m') (panicked : Bool) : m.writer ≠ .gone panicked := by
  intro hgone
  cases hs <;> simp_all only [reduceCtorEq]

/-- What the flush of a close has come to stays so. -/
theorem WriterStep.closing (h : Consistent initial m a) (hs : WriterStep m m')
    {flushed : Except LogError Unit} (hc : Closing m.state a flushed) :
    Closing m'.state a flushed := by
  have hwrites := h.writes
  have hframe : m'.state.ring = m.state.ring → m'.state.failure = m.state.failure →
      Closing m'.state a flushed := by
    intro hring hfailure
    refine ⟨fun hok => ?_, fun e he => ?_⟩
    · obtain ⟨hflushed, hsound, hlt⟩ := hc.drained hok
      exact ⟨hflushed, hfailure.trans hsound, by rw [hring]; exact hlt⟩
    · rw [hfailure]
      exact hc.failed e he
  -- a drained log has no block for the writer
  have hbusy : ∀ e, m.state.ring.blockSize ≤ m.state.ring.filled → flushed = .ok () → e := by
    intro e hle hok
    exact absurd hle (Nat.not_le.2 (hc.drained hok).filled_lt)
  cases hs with
  | loop _ _ loop => cases loop <;> exact hframe rfl rfl
  | enter | done | failed | panicked | announce => exact hframe rfl rfl
  | complete wrote _ loop =>
    rw [wrote] at hwrites
    refine ⟨hbusy _ hwrites.2.1, fun e he => ?_⟩
    cases loop <;> exact hc.failed e he
  | fail wrote =>
    rw [wrote] at hwrites
    exact ⟨hbusy _ hwrites.2, fun e he => ⟨by simp [Machine.failWrite], (hc.failed e he).2⟩⟩
  | @record panicked leaving =>
    rw [leaving] at hwrites
    refine ⟨fun hok => ?_, fun e he => ⟨?_, (hc.failed e he).2⟩⟩
    · cases panicked with
      | true => exact hbusy _ hwrites hok
      | false =>
        obtain ⟨hflushed, hsound, hlt⟩ := hc.drained hok
        exact ⟨hflushed, hsound, hlt⟩
    · show (if _ then _ else _) ≠ none
      rw [if_neg fun hn => (hc.failed e he).1 hn.2]
      exact (hc.failed e he).1

theorem ClientPoint.Woken.isFlushWaiting {p q : ClientPoint} (hw : ClientPoint.Woken p q) :
    q.isFlushWaiting = p.isFlushWaiting := by
  cases hw <;> rfl

theorem Inv.writerStep (h : Inv initial m a) (hs : WriterStep m m') :
    ∃ a', Accounts m (.step .writer) a a' ∧ Inv initial m' a' := by
  obtain ⟨wake, -, hclients⟩ := hs.clients
  obtain ⟨hpad, hdrain⟩ := hs.state_eq
  refine ⟨{ a with durable :=
    DeviceCall.durable (m.deviceCall? (.step .writer)) a.log.length a.durable },
    ⟨(List.append_nil _).symm, rfl, Nat.le_refl _, .inl rfl⟩, ?_⟩
  exact
    { exclusive := h.exclusive.writerStep hs
      consistent := h.consistent.writerStep hs
      serves := by
        intro t q hq
        obtain ⟨p, hp, hwoken⟩ := hs.woken_from hq
        refine (h.serves t p hp).mono hwoken (List.append_nil _).symm (Nat.le_refl _)
          h.flushed_le_length (fun _ => ⟨rfl, hpad, hdrain⟩) (fun hone => ⟨?_, rfl, rfl⟩)
          fun _ => ⟨fun flushed hc => ?_, fun panicked hgone => ?_⟩
        · rwa [hclients, List.length_map] at hone
        · obtain ⟨hdrained, hfailed⟩ := hs.closing h.consistent hc
          refine ⟨fun hok => ?_, hfailed⟩
          obtain ⟨hflushed, hsound, hlt⟩ := hdrained hok
          exact ⟨hflushed, hsound, hlt⟩
        · exact absurd hgone (hs.not_gone panicked)
      flushing := by
        intro hd
        rw [hdrain] at hd
        obtain ⟨t, p, hp, hwaits⟩ := h.flushing hd
        obtain ⟨q, hq, hwoken⟩ := hs.exists_woken hp
        exact ⟨t, q, hq, (ClientPoint.Woken.isFlushWaiting hwoken).trans hwaits⟩ }

theorem Inv.submit (h : Inv initial m a) {t : Nat} {request : Request}
    (hs : m.submit? t request = some m') :
    Accounts m (.submit t request) a a ∧ Inv initial m' a := by
  have hx := h.exclusive.submit hs
  have hplaced := submit?_placed hs
  obtain ⟨last, hp, -, hcase⟩ := submit?_cases hs
  have hsame : SameLog m m' := by
    rcases hcase with ⟨-, rfl⟩ | ⟨-, -, rfl⟩ <;> exact .of_parts rfl
  have hstate : m'.state = m.state ∧ m'.writer = m.writer := by
    rcases hcase with ⟨-, rfl⟩ | ⟨-, -, rfl⟩ <;> exact ⟨rfl, rfl⟩
  refine ⟨⟨(List.append_nil _).symm, rfl, Nat.le_refl _, .inl rfl⟩, ?_⟩
  exact
    { exclusive := hx
      consistent := h.consistent.frame hsame
      serves := by
        intro u q hq
        rcases hplaced.cases hq with ⟨rfl, rfl⟩ | ⟨-, hq⟩
        · cases request <;> trivial
        · refine (h.serves u q hq).mono .same (List.append_nil _).symm (Nat.le_refl _)
            h.flushed_le_length (fun _ => ⟨rfl, hsame.pad, hsame.draining⟩)
            (fun hone => ⟨?_, rfl, rfl⟩) fun _ => ⟨fun flushed hc => ?_, fun panicked hgone => ?_⟩
          · rwa [hplaced.length] at hone
          · rw [hstate.1]
            exact hc
          · rw [hstate.2]
            exact hgone
      flushing := by
        intro hd
        rw [hsame.draining] at hd
        obtain ⟨u, q, hq, hwaits⟩ := h.flushing hd
        have hut : u ≠ t := by
          rintro rfl
          rw [hp] at hq
          cases hq
          cases hwaits
        exact ⟨u, q, (hplaced.other hut).trans hq, hwaits⟩ }

/-- A move keeps the invariant. -/
theorem Inv.move (h : Inv initial m a) {move : Move} (hm : m.move? move = some m') :
    ∃ a', Accounts m move a a' ∧ Inv initial m' a' := by
  match move, hm with
  | .submit t request, hm => exact ⟨a, h.submit hm⟩
  | .step .writer, hm => exact h.writerStep (writerStep?_cases hm)
  | .step (.client t), hm =>
    obtain ⟨p, p', m₁, hp, hs, rfl⟩ := clientStep?_cases hm
    exact h.clientStep hp hs

/-- Faults of the device are nothing to the invariant. -/
theorem Inv.faults (h : Inv initial m a) {d : δ} (hd : SameStore m.device d) :
    Inv initial (m.withDevice d) a where
  exclusive := ⟨h.exclusive.append, h.exclusive.state, h.exclusive.device, h.exclusive.closing⟩
  consistent := h.consistent.frame ⟨rfl, rfl, rfl, rfl, rfl, hd.2, hd.1, .inl rfl⟩
  serves t p hp := by
    have hserves := h.serves t p hp
    cases p <;> exact hserves
  flushing := h.flushing

/-! ### Runs -/

omit [LawfulDevice δ] in
/-- Opening makes a ring and a cache for the device's blocks. -/
theorem open?_eq_ok {device : δ} {settings : Settings} {clients : Nat}
    (h : open? device settings clients = .ok m) : ∃ ring cache,
      Ring.new (Device.blockSize device) settings.bufferBlocks = .ok ring ∧
      Cache.new settings.cacheBlocks (Device.blockSize device) = .ok cache ∧
      m = start device ring cache clients := by
  simp only [open?, bind, Except.bind, pure, Except.pure] at h
  split at h
  · cases h
  · split at h
    · cases h
    · split at h
      · cases h
      · rename_i ring hring
        split at h
        · cases h
        · rename_i cache hcache
          split at h <;> cases h
          exact ⟨ring, cache, hring, hcache, rfl⟩

/-- A log that has just been opened. -/
theorem inv_start {device : δ} {settings : Settings} {clients : Nat}
    (h : open? device settings clients = .ok m) : Inv (contents device) m ⟨[], 0, 0⟩ := by
  obtain ⟨ring, cache, hring, hcache, rfl⟩ := open?_eq_ok h
  obtain ⟨-, hblockSize, -⟩ := Ring.new_eq_ok hring
  obtain ⟨hcvalid, hcblockSize, -, hnone⟩ := Cache.new_eq_ok hcache
  exact
    { exclusive := exclusive_start ..
      consistent :=
        { buffers := .start cache hring
          lands :=
            { contents_eq := (Bytes.image_nil _).symm
              durable_le := Nat.le_refl _
              popped := Nat.min_le_right ..
              ahead := Nat.zero_le _ }
          flushed_le := Nat.le_refl _
          caches :=
            { valid := hcvalid
              blockSize_eq := hcblockSize.trans hblockSize.symm
              agrees := fun b buffer hb => by
                rw [show (start device ring cache clients).state.cache.get? b = none from hnone b] at hb
                cases hb
              coherent := fun b buffer hb => by
                rw [show (start device ring cache clients).state.cache.get? b = none from hnone b] at hb
                cases hb }
          writes := trivial
          blockSize := hblockSize.symm }
      serves := by
        intro t p hp
        rw [List.eq_of_mem_replicate (List.mem_of_getElem? hp)]
        trivial
      flushing := fun hd => by cases hd }

omit [LawfulDevice δ] in
theorem ClientStep.ring_size (hs : ClientStep m t p p' m₁) (hring : m.state.ring.Valid) :
    m₁.state.ring.capacity = m.state.ring.capacity ∧
      m₁.state.ring.blockSize = m.state.ring.blockSize := by
  cases hs with
  | feedPart | feedAll => exact ⟨Ring.push_capacity hring _, Ring.push_blockSize hring _⟩
  | flushPads => exact ⟨Ring.fillUp_capacity _, Ring.fillUp_blockSize _⟩
  | flushDone =>
    unfold LogState.settleFlush
    dsimp only
    split <;> exact ⟨rfl, rfl⟩
  | _ => exact ⟨rfl, rfl⟩

/-- The size of the ring and of its blocks never changes. -/
theorem Inv.ring_size (h : Inv initial m a) {move : Move} (hm : m.move? move = some m') :
    m'.state.ring.capacity = m.state.ring.capacity ∧
      m'.state.ring.blockSize = m.state.ring.blockSize := by
  match move, hm with
  | .submit t request, hm =>
    obtain ⟨last, -, -, hcase⟩ := submit?_cases hm
    rcases hcase with ⟨-, rfl⟩ | ⟨-, -, rfl⟩ <;> exact ⟨rfl, rfl⟩
  | .step .writer, hm =>
    cases writerStep?_cases hm with
    | loop _ _ loop => cases loop <;> exact ⟨rfl, rfl⟩
    | complete _ _ loop => cases loop <;> exact ⟨rfl, rfl⟩
    | _ => exact ⟨rfl, rfl⟩
  | .step (.client t), hm =>
    obtain ⟨p, p', m₁, -, hs, rfl⟩ := clientStep?_cases hm
    exact hs.ring_size h.consistent.buffers.ring

/-- A run of a log from its opening on: the account is what can be told of the run. -/
theorem inv_of_reaches {device : δ} {settings : Settings} {clients : Nat} {m₀ : Machine δ}
    {past : History δ} (h₀ : open? device settings clients = .ok m₀) (h : Reaches m₀ past m) :
    (∃ flushed, Inv (contents device) m ⟨past.log, past.durable, flushed⟩) ∧
      m.state.ring.capacity = Device.blockSize device * settings.bufferBlocks ∧
      m.state.ring.blockSize = Device.blockSize device := by
  induction h with
  | start =>
    obtain ⟨ring, cache, hring, -, rfl⟩ := open?_eq_ok h₀
    obtain ⟨-, hblockSize, -, -, hcapacity⟩ := Ring.new_eq_ok hring
    exact ⟨⟨0, inv_start h₀⟩, hcapacity, hblockSize⟩
  | move move _ next ih =>
    obtain ⟨⟨flushed, hinv⟩, hcapacity, hblockSize⟩ := ih
    obtain ⟨hcapacity', hblockSize'⟩ := hinv.ring_size next
    obtain ⟨⟨log, durable, flushed'⟩, ⟨rfl, rfl, -, -⟩, hinv'⟩ := hinv.move next
    exact ⟨⟨flushed', hinv'⟩, hcapacity'.trans hcapacity, hblockSize'.trans hblockSize⟩
  | faults d _ same ih =>
    obtain ⟨⟨flushed, hinv⟩, hsizes⟩ := ih
    exact ⟨⟨flushed, hinv.faults same⟩, hsizes⟩

omit [LawfulDevice δ] in
/-- No client comes or goes. -/
theorem length_clients {move : Move} (hm : m.move? move = some m') :
    m'.clients.length = m.clients.length := by
  match move, hm with
  | .submit t request, hm => exact (submit?_placed hm).length
  | .step .writer, hm =>
    obtain ⟨wake, -, hclients⟩ := (writerStep?_cases hm).clients
    rw [hclients, List.length_map]
  | .step (.client t), hm =>
    obtain ⟨p, p', m₁, hp, hs, rfl⟩ := clientStep?_cases hm
    exact (hs.placed hp).length

theorem length_clients_of_reaches {device : δ} {settings : Settings} {clients : Nat} {m₀ : Machine δ}
    {past : History δ} (h₀ : open? device settings clients = .ok m₀) (h : Reaches m₀ past m) :
    m.clients.length = clients := by
  induction h with
  | start =>
    obtain ⟨ring, cache, -, -, rfl⟩ := open?_eq_ok h₀
    exact List.length_replicate
  | move move _ next ih => exact (length_clients next).trans ih
  | faults d _ same ih => exact ih

end

end Machine

end BlockLog
