import BlockLog.Proofs.Log.Calls

/-! What is on the device, at any moment and when a call says that everything is. -/

namespace BlockLog

/-- The call tells its caller that everything pushed before it is on the device. -/
def Call.acknowledges (c : Call) : Bool :=
  match c.request, c.reply with
  | .flush, .ok _ | .close, .ok _ | .read _ _, .ok _ => true
  | .read _ _, .error (.readPastEnd ..) => true
  | _, _ => false

/-- A call that acknowledges is no append and did not fail, unless it was a read past the end. -/
theorem Call.acknowledges_cases {c : Call} (h : c.acknowledges = true) :
    (∀ data, c.request ≠ .append data) ∧ ((∃ answer, c.reply = .ok answer) ∨
      c.request ≠ .close ∧ ∃ offset len size, c.reply = .error (.readPastEnd offset len size)) := by
  unfold acknowledges at h
  split at h
  · rename_i hreq hreply
    exact ⟨by simp [hreq], .inl ⟨_, hreply⟩⟩
  · rename_i hreq hreply
    exact ⟨by simp [hreq], .inl ⟨_, hreply⟩⟩
  · rename_i hreq hreply
    exact ⟨by simp [hreq], .inl ⟨_, hreply⟩⟩
  · rename_i hreq hreply
    exact ⟨by simp [hreq], .inr ⟨by simp [hreq], _, _, _, hreply⟩⟩
  · cases h

namespace Machine

open LawfulDevice

variable {δ : Type} [Device δ] [LawfulDevice δ]

/-! ### A durable prefix, at any moment -/

/-- No call takes bytes of the log from the device. -/
theorem Inv.durable_le {initial : Bytes} {m : Machine δ} {a : Account} (h : Inv initial m a)
    (move : Move) : a.durable ≤ DeviceCall.durable (m.deviceCall? move) a.log.length a.durable := by
  match move with
  | .submit t request => exact Nat.le_refl _
  | .step (.client t) => exact Nat.le_of_eq (durable_deviceCall?_client ..).symm
  | .step .writer =>
    cases hw : m.writer with
    | inFlight offset block =>
      rw [deviceCall?_of_inFlight hw]
      have hwrites := h.consistent.writes
      rw [hw] at hwrites
      obtain ⟨rfl, rfl, hfilled⟩ := hwrites
      have hle := h.consistent.lands.durable_le
      have hahead := h.consistent.lands.ahead
      have hlen := Ring.length_oldest h.consistent.buffers.ring
      cases ho : (Device.write m.device m.state.ring.tailOffset m.state.ring.oldest).outcome with
      | done =>
        show a.durable ≤ min _ _
        omega
      | _ => exact Nat.le_refl _
    | _ =>
      rw [deviceCall?_of_not_inFlight (by rw [hw]; rfl)]
      exact Nat.le_refl _

variable {device : δ} {settings : Settings} {clients : Nat} {m₀ m m' : Machine δ}
  {past more : History δ}

/-- Once a byte of the log is on the device it stays there. -/
theorem durable_le_of_reaches (h₀ : open? device settings clients = .ok m₀) (h : Reaches m₀ past m)
    (h' : Reaches m more m') : past.durable ≤ History.durable (more ++ past) := by
  induction h' with
  | start => exact Nat.le_refl _
  | move move reached _ ih =>
    obtain ⟨⟨flushed, hinv⟩, -⟩ := inv_of_reaches h₀ (h.trans reached)
    exact Nat.le_trans ih (hinv.durable_le move)
  | faults d _ _ ih => exact ih

/-- At every moment of a run the device has a prefix of the log, filled up with zeros to whole blocks,
    and nothing else has changed on it. What is missing of the log is no more than the ring holds,
    and however the run goes on, what is there stays there. -/
theorem device_holds_prefix (h₀ : open? device settings clients = .ok m₀) (h : Reaches m₀ past m)
    (h' : Reaches m more m') :
    past.durable ≤ past.log.length ∧
    contents m.device =
      Bytes.image (Device.blockSize device) (past.log.take past.durable) (contents device) ∧
    past.log.length - past.durable ≤ Device.blockSize device * settings.bufferBlocks ∧
    past.durable ≤ History.durable (more ++ past) ∧
    ∀ i, i < past.durable → (contents m'.device)[i]? = past.log[i]? := by
  obtain ⟨⟨flushed, hinv⟩, hcapacity, hblockSize⟩ := inv_of_reaches h₀ h
  obtain ⟨⟨flushed', hinv'⟩, -⟩ := inv_of_reaches h₀ (h.trans h')
  have hle := hinv.consistent.lands.durable_le
  have hmono := durable_le_of_reaches h₀ h h'
  refine ⟨hle, ?_, ?_, hmono, fun i hi => ?_⟩
  · rw [← hblockSize]
    exact hinv.consistent.lands.contents_eq
  · have hend := hinv.consistent.buffers.endOffset
    have hfilled := hinv.consistent.buffers.ring.filled_le
    have hpopped := hinv.consistent.lands.popped
    rw [← hcapacity]
    dsimp only at hend hpopped
    omega
  · obtain ⟨pushed, hlog⟩ := History.log_append more past
    rw [hinv'.consistent.lands.getElem?_contents (Nat.lt_of_lt_of_le hi hmono)]
    rw [hlog, List.getElem?_append_left (Nat.lt_of_lt_of_le hi hle)]

/-- A device that refuses writes after the first block. -/
theorem device_holds_prefix_degraded : ∃ (m₀ m m' : Machine Device.Memory)
    (past more : History Device.Memory),
    open? { blockSize := 2, contents := .ofList [9, 9, 9, 9, 9] }
      { bufferBlocks := 1, cacheBlocks := 1 } 1 = .ok m₀ ∧
    Reaches m₀ past m ∧ Reaches m more m' ∧ past.log = [1, 2] ∧
    History.log (more ++ past) = [1, 2, 3] ∧ m'.state.isDegraded = true ∧
    contents m.device = [1, 2, 9, 9, 9] ∧ (contents m'.device)[1]? = some 2 := by
  let before : List Move :=
    [.submit 0 (.append [1, 2, 3]), .step (.client 0), .step (.client 0), .step .writer, .step .writer,
      .step .writer]
  let after : List Move :=
    [.step .writer, .step (.client 0), .submit 0 .flush, .step (.client 0), .step (.client 0),
      .step .writer, .step .writer, .step .writer, .step .writer]
  have h₀ : open? ({ blockSize := 2, contents := .ofList [9, 9, 9, 9, 9] } : Device.Memory)
      { bufferBlocks := 1, cacheBlocks := 1 } 1 = .ok _ := rfl
  have hrefuses (m : Machine Device.Memory) :
      Reaches m [] (m.withDevice { m.device with refusesWrites := true }) :=
    .faults _ .start ⟨rfl, rfl⟩
  refine ⟨_, _, _, _, _, h₀, reaches_run? before (by decide +kernel),
    (hrefuses _).trans (reaches_run? after (by decide +kernel)), by decide +kernel, by decide +kernel,
    by decide +kernel, ?_⟩
  obtain ⟨-, himage, -, -, hkept⟩ := device_holds_prefix h₀ (reaches_run? before (by decide +kernel))
    ((hrefuses _).trans (reaches_run? after (by decide +kernel)))
  exact ⟨himage.trans (by decide +kernel), (hkept 1 (by decide +kernel)).trans (by decide +kernel)⟩

/-! ### The whole log, when a call says so -/

omit [Device δ] [LawfulDevice δ] in
theorem closeReply_eq_ok {flushed joined synced : Except LogError Unit} {answer : Answer}
    (h : closeReply flushed joined synced = .ok answer) :
    flushed = .ok () ∧ joined = .ok () ∧ synced = .ok () := by
  unfold closeReply at h
  split at h
  · cases h
  · cases h
  · cases h
  · exact ⟨rfl, rfl, rfl⟩

section

variable {initial : Bytes} {a : Account} {m₁ : Machine δ} {t : Nat} {p p' : ClientPoint}

/-- A step that ends a call which acknowledges finds the whole log on the device and leaves both as
    they are. -/
theorem ClientStep.durable_eq (h : Inv initial m a) (hp : m.clients[t]? = some p)
    (hs : ClientStep m t p p' m₁) {call : Call} (hp' : p' = .idle (some call.reply))
    (hreq : p.request? = some call.request) (hack : call.acknowledges = true)
    (halone : m.clients.length = 1 ∨ ∀ data, call.reply ≠ .ok (.bytes data)) :
    a.durable = a.log.length ∧ m.pushes (.step (.client t)) = [] ∧
      contents m₁.device = contents m.device := by
  obtain ⟨hnoappend, hreply⟩ := Call.acknowledges_cases hack
  have hc := h.consistent
  have hserves := h.serves t p hp
  have hsound : ∀ e : LogError, (∀ offset len size, e ≠ .readPastEnd offset len size) →
      p' ≠ .idle (some (.error e)) := by
    rintro e hne rfl
    rcases hreply with ⟨answer, hok⟩ | ⟨-, offset, len, size, herror⟩
    · rw [hok] at hp'
      cases hp'
    · rw [herror] at hp'
      cases hp'
      exact hne offset len size rfl
  have hclose : ∀ flushed joined synced, p.request? = some .close →
      p' = .idle (some (closeReply flushed joined synced)) → flushed = .ok () := by
    rintro flushed joined synced hc rfl
    rcases hreply with ⟨answer, hok⟩ | ⟨hne, -⟩
    · rw [hok] at hp'
      exact (closeReply_eq_ok (Option.some.inj (ClientPoint.idle.inj hp'))).1
    · rw [hreq] at hc
      exact absurd (Option.some.inj hc) hne
  have hflushed : a.flushed = a.log.length → a.durable = a.log.length := by
    have := hc.flushed_le
    have := hc.lands.durable_le
    omega
  have happend : p.isAppending = true → False := by
    intro ha
    cases p with
    | appendAdmitted data => exact hnoappend data (Option.some.inj hreq).symm
    | appendWaiting data => exact hnoappend data (Option.some.inj hreq).symm
    | _ => cases ha
  have hrefused : ∀ (purpose : Purpose) (reason : Degradation),
      p' ≠ purpose.next (.error (.degraded reason)) := by
    intro purpose reason hn
    cases purpose with
    | flush | read => exact hsound (.degraded reason) (by simp) hn
    | close =>
      rw [hn] at hp'
      cases hp'
  cases hs with
  | feedNothing _ feeds | feedRefused _ feeds | feedAll _ feeds =>
    cases feeds <;> exact (happend rfl).elim
  | refuseAppend => exact (happend rfl).elim
  | flushNothing _ _ empty =>
    exact ⟨hc.lands.durable_eq hc.buffers empty, pushes_eq_nil hp (.inl rfl), rfl⟩
  | flushDone _ _ empty =>
    exact ⟨hc.lands.durable_eq hc.buffers empty, pushes_eq_nil hp (.inl rfl), rfl⟩
  | refuseFlush => exact absurd rfl (hrefused _ _)
  | flushFails => exact absurd rfl (hrefused _ _)
  | refuseRead => exact absurd rfl (hsound _ (by simp))
  | readFails => exact absurd rfl (hsound _ (by simp))
  | @readDone offset len got =>
    obtain ⟨⟨-, hall⟩, -⟩ := hserves
    rcases halone with hone | hnot
    · exact ⟨hflushed (hall hone), pushes_eq_nil hp (.inl rfl), rfl⟩
    · exact absurd (Option.some.inj (ClientPoint.idle.inj hp')).symm (hnot got)
  | joinDegraded _ _ failed =>
    have hdrained := hserves.drained (hclose _ _ _ rfl rfl)
    rw [LogState.isDegraded, hdrained.sound] at failed
    cases failed
  | sync =>
    have hdrained := hserves.1.drained (hclose _ _ _ rfl rfl)
    exact ⟨hflushed hdrained.flushed, pushes_eq_nil hp (.inl rfl), contents_sync _⟩
  | _ => cases hp'

/-- A close that succeeds ends with a sync that succeeds, when the writer is gone. -/
theorem ClientStep.sync_of_close (h : Inv initial m a) (hp : m.clients[t]? = some p)
    (hs : ClientStep m t p p' m₁) {answer : Answer} (hp' : p' = .idle (some (.ok answer)))
    (hreq : p.request? = some .close) :
    m.deviceCall? (.step (.client t)) = some (.sync (.ok ())) ∧ m₁.writer = m.writer ∧
      ∃ panicked, m.writer = .gone panicked := by
  have hserves := h.serves t p hp
  have hnext : ∀ (purpose : Purpose) (flushed : Except LogError Nat), purpose.request = .close →
      p' ≠ purpose.next flushed := by
    rintro purpose flushed hclose rfl
    cases purpose with
    | close => cases flushed <;> cases hp'
    | _ => cases hclose
  cases hs with
  | feedNothing _ feeds | feedRefused _ feeds | feedAll _ feeds => cases feeds <;> cases hreq
  | refuseFlush | flushNothing | flushFails | flushDone =>
    exact absurd rfl (hnext _ _ (Option.some.inj hreq))
  | joinDegraded _ _ failed =>
    have hok := (closeReply_eq_ok (Option.some.inj (ClientPoint.idle.inj hp'))).1
    rw [LogState.isDegraded, (hserves.drained hok).sound] at failed
    cases failed
  | sync =>
    obtain ⟨-, -, hsync⟩ := closeReply_eq_ok (Option.some.inj (ClientPoint.idle.inj hp'))
    refine ⟨?_, rfl, hserves.2.2⟩
    cases ho : (Device.sync m.device).outcome with
    | ok => simp [deviceCall?, hp, ho]
    | error e =>
      rw [ho] at hsync
      cases hsync
  | refuseAppend | refuseRead | readFails | readDone => cases hreq
  | _ => cases hp'

end

/-! ### After a close -/

/-- A log whose handle has been given up, with nobody left who could take a step. -/
structure ShutDown (m : Machine δ) : Prop where
  closed : m.closed = true
  gone : ∃ panicked, m.writer = .gone panicked
  idle : ∀ p ∈ m.clients, p.isIdle = true

omit [LawfulDevice δ] in
theorem ShutDown.move?_eq_none (h : ShutDown m) (move : Move) : m.move? move = none := by
  obtain ⟨panicked, hgone⟩ := h.gone
  match move with
  | .submit t request =>
    show m.submit? t request = none
    unfold submit?
    split
    · rw [if_pos h.closed]
    · rfl
  | .step .writer =>
    show m.writerStep? = none
    unfold writerStep?
    rw [hgone]
  | .step (.client t) =>
    cases hs : m.move? (.step (.client t)) with
    | none => rfl
    | some m' =>
      obtain ⟨p, p', m₁, hp, hs, -⟩ := clientStep?_cases hs
      have hidle := h.idle p (List.mem_of_getElem? hp)
      rw [hs.not_idle] at hidle
      cases hidle

/-- Nothing happens any more. -/
theorem ShutDown.reaches (h : ShutDown m) (h' : Reaches m more m') :
    ShutDown m' ∧ more = [] ∧ contents m'.device = contents m.device := by
  induction h' with
  | start => exact ⟨h, rfl, rfl⟩
  | move move _ next ih =>
    rw [ih.1.move?_eq_none move] at next
    cases next
  | faults d _ same ih =>
    obtain ⟨hdown, hmore, hcontents⟩ := ih
    exact ⟨⟨hdown.closed, hdown.gone, hdown.idle⟩, hmore, same.2.trans hcontents⟩

/-- When a call says that everything pushed is on the device, it is, filled up with zeros to whole
    blocks, and behind that nothing has changed. A read that brings bytes says so of what had been
    pushed when it looked; that is the whole log if nobody else can have appended since. A close that
    says so has synced the device last, and nothing happens after it. -/
theorem acknowledged_exact {now : Moment δ} {call : Call}
    (h₀ : open? device settings clients = .ok m₀) (h : Reaches m₀ (now :: past) m)
    (hend : History.ending? now past = some call) (hack : call.acknowledges = true)
    (halone : clients = 1 ∨ ∀ data, call.reply ≠ .ok (.bytes data)) :
    contents m.device =
      Bytes.image (Device.blockSize device) (History.log (now :: past)) (contents device) ∧
    (contents m.device).length = max (contents device).length
      (((History.log (now :: past)).length + Device.blockSize device - 1) / Device.blockSize device *
        Device.blockSize device) ∧
    (call.request = .close →
      History.deviceCalls (now :: past) = past.deviceCalls ++ [.sync (.ok ())] ∧
      ∀ more m', Reaches m more m' →
        History.deviceCalls (more ++ now :: past) = History.deviceCalls (now :: past) ∧
          contents m'.device = contents m.device) := by
  obtain ⟨hreached, hmove, d, hsame, rfl⟩ := h.last
  obtain ⟨⟨flushed, hinv⟩, -, hblockSize⟩ := inv_of_reaches h₀ hreached
  have hlength := length_clients_of_reaches h₀ hreached
  obtain ⟨p, p', m₁, hstep, hp, hs, hafter, hreq, hp', -⟩ :=
    History.ending?_cases (History.booked_of_reaches h₀ hreached) hmove hend
  obtain ⟨hdurable, hpush, hkept⟩ :=
    hs.durable_eq hinv hp hp' hreq hack (by rw [hlength]; exact halone)
  have hlog : History.log (now :: past) = past.log := by
    rw [History.log, hstep, hpush, List.append_nil]
  have hcontents : contents (now.after.withDevice d).device =
      Bytes.image (Device.blockSize device) past.log (contents device) := by
    rw [← hblockSize, ← hinv.consistent.lands.contents_eq_image hdurable, ← hkept]
    show contents d = _
    rw [hsame.2, hafter]
    rfl
  rw [hlog]
  refine ⟨hcontents, ?_, fun hclose => ?_⟩
  · have hpos := hinv.consistent.buffers.ring.blockSize_pos
    rw [hblockSize] at hpos
    rw [hcontents, Bytes.length_image, Bytes.add_gap_eq hpos]
  · obtain ⟨answer, hok⟩ : ∃ answer, call.reply = .ok answer := by
      rcases (Call.acknowledges_cases hack).2 with hok | ⟨hne, -⟩
      · exact hok
      · exact absurd hclose hne
    rw [hok] at hp'
    rw [hclose] at hreq
    obtain ⟨hsync, hwriter, panicked, hgone⟩ := hs.sync_of_close hinv hp hp' hreq
    obtain ⟨hclosed, hothers⟩ :=
      hinv.exclusive.closing _ p hp (ClientPoint.isClosing_of_request? hreq)
    have hdown : ShutDown (now.after.withDevice d) := by
      rw [hafter]
      refine ⟨hs.closed_eq.trans hclosed, ⟨panicked, hwriter.trans hgone⟩, fun q hq => ?_⟩
      obtain ⟨u, hu⟩ := List.mem_iff_getElem?.1 hq
      rcases (hs.placed hp).cases hu with ⟨-, rfl⟩ | ⟨hut, hu⟩
      · rw [hp']
        rfl
      · exact hothers u q hut hu
    refine ⟨?_, fun more m' hmore => ?_⟩
    · rw [History.deviceCalls, hstep, hsync]
      rfl
    · obtain ⟨-, rfl, hkept'⟩ := hdown.reaches hmore
      exact ⟨rfl, hkept'⟩

/-- An append and a close, on a device that has been written before. -/
theorem acknowledged_exact_close : ∃ (m₀ m : Machine Device.Memory) (now : Moment Device.Memory)
    (past : History Device.Memory) (call : Call),
    open? { blockSize := 2, contents := .ofList [9, 9, 9] } { bufferBlocks := 1, cacheBlocks := 1 } 1 =
      .ok m₀ ∧ Reaches m₀ (now :: past) m ∧ History.ending? now past = some call ∧
    call.request = .close ∧ call.acknowledges = true ∧ contents m.device = [1, 0, 9] := by
  let moves : List Move :=
    [.submit 0 (.append [1]), .step (.client 0), .step (.client 0), .submit 0 .close,
      .step (.client 0), .step (.client 0), .step .writer, .step .writer, .step .writer,
      .step .writer, .step (.client 0), .step (.client 0), .step (.client 0), .step .writer,
      .step .writer, .step .writer, .step (.client 0), .step (.client 0)]
  have h₀ : open? ({ blockSize := 2, contents := .ofList [9, 9, 9] } : Device.Memory)
      { bufferBlocks := 1, cacheBlocks := 1 } 1 = .ok _ := rfl
  refine ⟨_, _, _, _, _, h₀, reaches_of_run? moves rfl, rfl, rfl, rfl, ?_⟩
  refine (acknowledged_exact h₀ (reaches_of_run? moves rfl) rfl rfl (.inl rfl)).1.trans ?_
  rfl

end Machine

end BlockLog
