import BlockLog.Proofs.Log.AppendOrder
import BlockLog.Proofs.Log.Coherence
import BlockLog.Proofs.Log.Simulation

/-! What a client gets does not depend on when the writer takes its steps. Two runs with the same calls
    may stand anywhere between them, one with a ring that is full where the other's is empty; but
    both are on the way to the same prompt log, and when nothing is left to drain, both have come
    there.

        run:        m₀ ─ call ─ ─ ─ writer ─ ─ call ─ ─ writer ─▶ m  ╮
                                                                     ├ the same prompt log is due
        other run:  m₀ ─ call ─ call ─ ─ writer ─ ─ writer ─ ─ ─▶ m' ╯ -/

namespace BlockLog

/-- The call that a move gives. -/
def Move.request? : Move → Option Request
  | .submit _ request => some request
  | .step _ => none

/-- How many bytes the append under way has pushed so far. -/
def ClientPoint.pushed : ClientPoint → Nat
  | .appendWaiting data rest .. => data.length - rest.length
  | _ => 0

@[simp] theorem Purpose.pushed_next (purpose : Purpose) (flushed : Except LogError Nat) :
    (purpose.next flushed).pushed = 0 := by
  cases purpose <;> cases flushed <;> simp only [Purpose.next] <;> try rfl
  split <;> rfl

theorem ClientPoint.Woken.pushed {p q : ClientPoint} (h : ClientPoint.Woken p q) :
    q.pushed = p.pushed := by
  cases h <;> rfl

theorem ClientPoint.Woken.isReading {p q : ClientPoint} (h : ClientPoint.Woken p q) :
    q.isReading = p.isReading := by
  cases h <;> rfl

/-- What a device contains after a call to it. -/
def DeviceCall.onto (contents : Bytes) : DeviceCall → Bytes
  | .write offset block .done => contents.overwrite offset block
  | _ => contents

namespace History

/-- The calls given so far, the oldest first. -/
def requests {δ : Type} : History δ → List Request
  | [] => []
  | now :: earlier => requests earlier ++ now.move.request?.toList

end History

/-- Calls that answer as they should answer as all the calls given say. -/
theorem Trace.reply_of_requests {calls : List Call} {log : Bytes} (h : Trace Exact calls log)
    {requests : List Request} (hpre : calls.map Call.request <+: requests) {i : Nat} {c : Call}
    (hc : calls[i]? = some c) : requests[i]? = some c.request ∧
      c.reply = c.request.answer ((requests.take i).map Request.payload).flatten := by
  obtain ⟨hi, hget⟩ := List.getElem?_eq_some_iff.1 hc
  obtain ⟨more, rfl⟩ := hpre
  have hlt : i < (calls.map Call.request).length := by rwa [List.length_map]
  have hsplit : calls = calls.take i ++ c :: calls.drop (i + 1) := by
    rw [← hget, List.getElem_cons_drop, List.take_append_drop]
  have hbrought : payloads (calls.take i) =
      ((((calls.map Call.request) ++ more).take i).map Request.payload).flatten := by
    rw [List.take_append_of_le_length (Nat.le_of_lt hlt), ← List.map_take, List.map_map]
    rfl
  refine ⟨?_, by rw [← hbrought, h.reply_eq hsplit]⟩
  rw [List.getElem?_append_left hlt, List.getElem?_map, hc]
  rfl

/-- Of the same calls given, those that are over are answered the same. -/
theorem Trace.agree {calls calls' : List Call} {log log' : Bytes} (h : Trace Exact calls log)
    (h' : Trace Exact calls' log') {requests : List Request}
    (hpre : calls.map Call.request <+: requests) (hpre' : calls'.map Call.request <+: requests)
    {i : Nat} {c c' : Call} (hc : calls[i]? = some c) (hc' : calls'[i]? = some c') :
    c.request = c'.request ∧ c.reply = c'.reply := by
  obtain ⟨hreq, hreply⟩ := h.reply_of_requests hpre hc
  obtain ⟨hreq', hreply'⟩ := h'.reply_of_requests hpre' hc'
  have hgiven : c.request = c'.request := by
    rw [hreq'] at hreq
    exact (Option.some.inj hreq).symm
  exact ⟨hgiven, by rw [hreply, hreply', hgiven]⟩

namespace Machine

open LawfulDevice

variable {δ : Type} [Device δ] [LawfulDevice δ] {initial : Bytes} {m m' m₁ : Machine δ} {a : Account}
  {t : Nat} {p p' : ClientPoint} {past past' : History δ} {ρ : Prompt}

/-! ### What the device contains -/

/-- A step of the writer changes what the device contains by its device call only. -/
theorem WriterStep.contents_eq (h : Consistent initial m a) (hs : WriterStep m m') :
    contents m'.device =
      (m.deviceCall? (.step .writer)).toList.foldl DeviceCall.onto (contents m.device) := by
  have hquiet : m.writer.isInFlight = false →
      (m.deviceCall? (.step .writer)).toList.foldl DeviceCall.onto (contents m.device) =
        contents m.device := by
    intro hnot
    rw [deviceCall?_of_not_inFlight hnot]
    rfl
  cases hs with
  | loop ready _ loop => rw [hquiet (by rw [ready]; rfl), loop.frame.2.2.2.1]
  | complete wrote _ loop =>
    rw [hquiet (by rw [wrote]; rfl), loop.frame.2.2.2.1]
    rfl
  | enter staged => exact (hquiet (by rw [staged]; rfl)).symm
  | fail wrote => exact (hquiet (by rw [wrote]; rfl)).symm
  | record leaving => exact (hquiet (by rw [leaving]; rfl)).symm
  | announce announcing => exact (hquiet (by rw [announcing]; rfl)).symm
  | failed inFlight failed =>
    rw [deviceCall?_of_inFlight inFlight, failed]
    exact contents_of_write_failed _ _ _ (by rw [failed]; simp)
  | panicked inFlight panicked =>
    rw [deviceCall?_of_inFlight inFlight, panicked]
    exact contents_of_write_failed _ _ _ (by rw [panicked]; simp)
  | done inFlight done =>
    rw [deviceCall?_of_inFlight inFlight, done]
    exact h.contents_write inFlight done

/-- Only writes that go through change what the device contains. -/
theorem Inv.contents_eq (h : Inv initial m a) {move : Move} (hm : m.move? move = some m') :
    contents m'.device = (m.deviceCall? move).toList.foldl DeviceCall.onto (contents m.device) := by
  match move, hm with
  | .submit t request, hm =>
    exact congrArg contents (submit?_frame hm).2.2
  | .step .writer, hm => exact (writerStep?_cases hm).contents_eq h.consistent
  | .step (.client t), hm =>
    obtain ⟨p, p', m₁, hp, hs, rfl⟩ := clientStep?_cases hm
    refine hs.contents_eq.trans ?_
    simp only [deviceCall?]
    split
    · split <;> rfl
    · rfl
    · rfl

theorem contents_of_reaches {device : δ} {settings : Settings} {clients : Nat} {m₀ : Machine δ}
    (h₀ : open? device settings clients = .ok m₀) (h : Reaches m₀ past m) :
    contents m.device = past.deviceCalls.foldl DeviceCall.onto (contents device) := by
  induction h with
  | start =>
    obtain ⟨ring, cache, -, -, rfl⟩ := open?_eq_ok h₀
    rfl
  | move move reached next ih =>
    obtain ⟨⟨flushed, hinv⟩, -⟩ := inv_of_reaches h₀ reached
    rw [hinv.contents_eq next, History.deviceCalls, List.foldl_append, ih]
  | faults d _ same ih => exact same.2.trans ih

/-! ### One client -/

/-- The only client of a log stands at `p`, and when its call is over and the writer is through with what
    is buffered, the log will have done what the prompt log `ρ` does. -/
structure Follows (initial : Bytes) (ρ : Prompt) (past : History δ) (m : Machine δ) (p : ClientPoint) :
    Prop where
  clients : m.clients = [p]
  due : (m.due initial past.log past.deviceCalls).after p = past.requests.foldl Prompt.call ρ
  asked : past.requests = past.calls.map Call.request ++ p.request?.toList
  appended : m.state.totals.appendedBytes + p.pushed = past.log.length
  drained : p.isReading = true ∨ m.state.stop = true →
    m.state.ring.filled < m.state.ring.blockSize

omit [Device δ] [LawfulDevice δ] in
theorem eq_of_clients (hclients : m.clients = [p]) (hp : m.clients[t]? = some p') :
    t = 0 ∧ p' = p := by
  rw [hclients] at hp
  obtain ⟨ht, hp⟩ := List.getElem?_eq_some_iff.1 hp
  have ht : t = 0 := by simpa using ht
  subst ht
  exact ⟨rfl, hp.symm⟩

omit [LawfulDevice δ] in
theorem Follows.submit (hf : Follows initial ρ past m p) {request : Request}
    (hm : m.submit? t request = some m') :
    Follows initial ρ (⟨m, .submit t request, m'⟩ :: past) m' request.entry := by
  obtain ⟨last, hp, -, hcase⟩ := submit?_cases hm
  obtain ⟨rfl, hidle⟩ := eq_of_clients hf.clients hp
  obtain ⟨hstate, hclients, hsame⟩ : m'.state = m.state ∧
      m'.clients = m.clients.set 0 request.entry ∧ Undisturbed m m' := by
    rcases hcase with ⟨-, rfl⟩ | ⟨-, -, rfl⟩ <;>
      exact ⟨rfl, rfl, .of_parts rfl rfl⟩
  have hlog := History.log_submit m m' 0 request past
  have hover : History.calls (⟨m, .submit 0 request, m'⟩ :: past) = past.calls := List.append_nil _
  have hdue := hf.due
  have hasked := hf.asked
  have happended := hf.appended
  rw [← hidle] at hdue hasked happended
  exact
    { clients := by rw [hclients, hf.clients]; rfl
      due := by
        rw [hlog, History.deviceCalls_submit, hsame.due_eq, Prompt.after_entry, History.requests,
          List.foldl_append, ← hdue]
        rfl
      asked := by
        rw [hover, History.requests, hasked, Request.request?_entry]
        simp [Move.request?, ClientPoint.request?]
      appended := by
        rw [hlog, hstate, ← happended]
        cases request <;> rfl
      drained := by
        rw [hstate]
        rintro (hread | hstop)
        · cases request <;> cases hread
        · exact hf.drained (.inr hstop) }

omit [LawfulDevice δ] in
/-- A step of the writer finishes no append and puts nothing into the ring. -/
theorem WriterStep.totals_eq (hs : WriterStep m m') :
    m'.state.totals.appendedBytes = m.state.totals.appendedBytes ∧
      m'.state.ring.filled ≤ m.state.ring.filled ∧
      m'.state.ring.blockSize = m.state.ring.blockSize := by
  cases hs with
  | loop _ _ loop => cases loop <;> exact ⟨rfl, Nat.le_refl _, rfl⟩
  | complete _ _ loop => cases loop <;> exact ⟨rfl, Nat.sub_le .., rfl⟩
  | _ => exact ⟨rfl, Nat.le_refl _, rfl⟩

theorem Follows.writerStep {flushed : Nat} (hf : Follows initial ρ past m p)
    (h : Consistent initial m ⟨past.log, past.durable, flushed⟩) (hsound : Sound m)
    (hd : ∀ call, m.deviceCall? (.step .writer) = some call → call.Succeeded)
    (hs : WriterStep m m') :
    ∃ q, Follows initial ρ (⟨m, .step .writer, m'⟩ :: past) m' q := by
  obtain ⟨wake, hwake, hclients⟩ := hs.clients
  obtain ⟨happended, hfilled, hblockSize⟩ := hs.totals_eq
  have hw := hwake p
  have hlog := History.log_writer m m' past
  have hover : History.calls (⟨m, .step .writer, m'⟩ :: past) = past.calls := List.append_nil _
  have hrequests : History.requests (⟨m, .step .writer, m'⟩ :: past) = past.requests :=
    List.append_nil _
  exact ⟨wake p,
    { clients := by rw [hclients, hf.clients]; rfl
      due := by
        rw [hlog, hrequests, ← hf.due, Prompt.after_woken _ hw]
        exact congrArg (Prompt.after · p) (hs.due_eq h hsound hd)
      asked := by rw [hover, hrequests, hw.request?]; exact hf.asked
      appended := by rw [hlog, happended, hw.pushed]; exact hf.appended
      drained := by
        rw [hs.stop_eq, hw.isReading, hblockSize]
        exact fun hor => Nat.lt_of_le_of_lt hfilled (hf.drained hor) }⟩

/-! ### Steps of the client -/

/-- What an append has pushed so far and what is left of it are the whole. -/
theorem Feeds.pushed_add (h : Inv initial m a) (hp : m.clients[t]? = some p) {data rest : Bytes}
    {offset : Nat} (hf : Feeds m p data rest offset) : p.pushed + rest.length = data.length := by
  obtain ⟨-, -, -, hdata⟩ := h.feeds hp hf
  cases hf with
  | first => exact Nat.zero_add _
  | again =>
    rw [← hdata, ClientPoint.pushed, List.length_append]
    omega

/-- What is pushed is counted when its append is over, and is part of the append under way until then. -/
theorem ClientStep.appended (h : Inv initial m a) (hsound : Sound m) (hp : m.clients[t]? = some p)
    (hs : ClientStep m t p p' m₁) :
    m₁.state.totals.appendedBytes + p'.pushed =
      m.state.totals.appendedBytes + p.pushed + (m.pushes (.step (.client t))).length := by
  cases hs with
  | refuseAppend _ failed =>
    rw [pushes_eq_nil hp (.inr (by simp [failed]))]
    rfl
  | feedRefused _ feeds _ failed =>
    rw [hsound.failure] at failed
    cases failed
  | @feedNothing p data offset _ feeds =>
    have hsum := feeds.pushed_add h hp
    rw [pushes_of_feeds hp feeds hsound.failure, List.take_nil]
    show m.state.totals.appendedBytes + data.length + 0 = _
    rw [← hsum, List.length_nil]
    omega
  | @feedBlocked p data rest offset _ feeds _ _ full =>
    have hsum := feeds.pushed_add h hp
    rw [pushes_of_feeds hp feeds hsound.failure, full, List.take_zero, ClientPoint.pushed,
      List.length_nil]
    omega
  | @feedPart p data rest offset _ feeds _ _ short =>
    have hsum := feeds.pushed_add h hp
    rw [pushes_of_feeds hp feeds hsound.failure, ClientPoint.pushed, List.length_drop, List.length_take]
    show m.state.totals.appendedBytes + _ = _
    omega
  | @feedAll p data rest offset _ feeds _ _ fits =>
    have hsum := feeds.pushed_add h hp
    rw [pushes_of_feeds hp feeds hsound.failure, List.take_of_length_le fits]
    show m.state.totals.appendedBytes + data.length + 0 = _
    omega
  | refuseFlush | flushNothing | flushFails | flushDone =>
    rw [pushes_eq_nil hp (.inl rfl), Purpose.pushed_next]
    rfl
  | _ =>
    rw [pushes_eq_nil hp (.inl rfl)]
    rfl

/-- After its flush a read starts with less than a block in the ring, and that stays so. -/
theorem ClientStep.filled_lt_of_isReading (h : Inv initial m a) (hp : m.clients[t]? = some p)
    (hs : ClientStep m t p p' m₁)
    (hbefore : p.isReading = true → m.state.ring.filled < m.state.ring.blockSize)
    (hread : p'.isReading = true) : m₁.state.ring.filled < m₁.state.ring.blockSize := by
  have hserves := h.serves t p hp
  cases hs with
  | @refuseFlush purpose | @flushFails purpose => cases purpose <;> cases hread
  | flushNothing _ _ empty =>
    show m.state.ring.filled < m.state.ring.blockSize
    rw [empty]
    exact h.consistent.buffers.ring.blockSize_pos
  | flushDone _ _ empty =>
    rw [← hserves.1]
    exact h.consistent.buffers.settle_filled_lt empty
  | beginRead | readHit | readMiss => exact hbefore rfl
  | _ => cases hread

/-- A close asks for the stop with less than a block in the ring, and that stays so. -/
theorem ClientStep.filled_lt_of_stop (h : Inv initial m a) (hl : Live m) (hsound : Sound m)
    (hp : m.clients[t]? = some p) (hs : ClientStep m t p p' m₁)
    (hbefore : m.state.stop = true → m.state.ring.filled < m.state.ring.blockSize)
    (hstop : m₁.state.stop = true) : m₁.state.ring.filled < m₁.state.ring.blockSize := by
  rcases hs.stop_eq with hsame | ⟨-, -, flushed, hstopped⟩
  · rw [hsame] at hstop
    have hfree : p.holdsAppend = false := by
      rcases hl.stopping hstop t p hp with hidle | hgone
      · rw [hs.not_idle] at hidle
        cases hidle
      · cases p <;> first | rfl | cases hgone
    rcases hs.ring_eq with hring | hheld
    · rw [hring]
      exact hbefore hstop
    · rw [hfree] at hheld
      cases hheld
  · obtain ⟨a', hserved⟩ := hs.served h hp
    have hclosing : Closing m₁.state a' flushed := by
      have hserves := hserved.serves
      rw [hstopped] at hserves
      exact hserves
    cases flushed with
    | ok => exact (hclosing.drained rfl).filled_lt
    | error e => exact absurd (hs.failure_eq.trans hsound.failure) (hclosing.failed e rfl).1

theorem Follows.clientStep {flushed : Nat} (hf : Follows initial ρ past m p)
    (h : Inv initial m ⟨past.log, past.durable, flushed⟩) (hl : Live m) (hsound : Sound m)
    (hb : History.Booked past m)
    (hd : ∀ call, m.deviceCall? (.step (.client t)) = some call → call.Succeeded)
    (hp : m.clients[t]? = some p) (hs : ClientStep m t p p' m₁) :
    Follows initial ρ (⟨m, .step (.client t), m₁.setClient t p'⟩ :: past) (m₁.setClient t p') p' := by
  obtain ⟨rfl, -⟩ := eq_of_clients hf.clients hp
  have hrequests : History.requests (⟨m, .step (.client 0), m₁.setClient 0 p'⟩ :: past) =
      past.requests := List.append_nil _
  exact
    { clients := by
        show m₁.clients.set 0 p' = _
        rw [hs.clients_eq, hf.clients]
        rfl
      due := by
        rw [hrequests, ← hf.due]
        show (m₁.due initial _ _).after p' = _
        exact hs.due_after h hsound (fun hr => ⟨hf.drained (.inl hr),
          h.durable_eq_of_isReading (by rw [hf.clients]; rfl) hp hr⟩) hd hp
      asked := by
        rw [hrequests, hf.asked, History.calls]
        obtain ⟨begun, request, hreq, -, ⟨reply, rfl, hending⟩ | ⟨hgoes, hending⟩⟩ :=
          History.calls_clientStep hb hp hs
        · rw [hending, hreq, Option.toList_some, List.map_append]
          exact (List.append_nil _).symm
        · rw [hending, hreq, hgoes, Option.toList_none, List.append_nil]
      appended := by
        rw [History.log, List.length_append, ← hf.appended]
        show m₁.state.totals.appendedBytes + _ = _
        exact hs.appended h hsound hp
      drained := by
        show _ ∨ m₁.state.stop = true → m₁.state.ring.filled < m₁.state.ring.blockSize
        exact fun hor => hor.elim
          (hs.filled_lt_of_isReading h hp fun hr => hf.drained (.inl hr))
          (hs.filled_lt_of_stop h hl hsound hp fun hs => hf.drained (.inr hs)) }

/-! ### Runs -/

variable {device : δ} {settings : Settings} {m₀ : Machine δ}

theorem follows_of_reaches (h₀ : open? device settings 1 = .ok m₀) (h : Reaches m₀ past m)
    (hu : past.Unfailing) :
    ∃ p, Follows (contents device) (m₀.due (contents device) [] []) past m p := by
  induction h with
  | start =>
    obtain ⟨ring, cache, hring, -, rfl⟩ := open?_eq_ok h₀
    exact ⟨.idle none, ⟨rfl, rfl, rfl, rfl, fun hor => by rcases hor with h | h <;> cases h⟩⟩
  | @move past m m' move reached next ih =>
    obtain ⟨hbefore, hd⟩ := hu.cons
    obtain ⟨p, hf⟩ := ih hbefore
    obtain ⟨⟨flushed, hinv⟩, -⟩ := inv_of_reaches h₀ reached
    have hsound := (sound_of_reaches h₀ reached hbefore).1
    match move, next with
    | .submit t request, next => exact ⟨_, hf.submit next⟩
    | .step .writer, next =>
      exact hf.writerStep hinv.consistent hsound hd (writerStep?_cases next)
    | .step (.client t), next =>
      obtain ⟨q, q', m₁, hq, hs, rfl⟩ := clientStep?_cases next
      obtain ⟨rfl, rfl⟩ := eq_of_clients hf.clients hq
      exact ⟨q', hf.clientStep hinv (live_of_reaches h₀ reached) hsound
        (History.booked_of_reaches h₀ reached) hd hq hs⟩
  | faults d _ same ih =>
    obtain ⟨p, hf⟩ := ih hu
    exact ⟨p, ⟨hf.clients, hf.due, hf.asked, hf.appended, hf.drained⟩⟩

/-- No call is under way, and the writer has nothing left to drain. -/
structure Quiet (m : Machine δ) : Prop where
  idle : ∀ p ∈ m.clients, p.isIdle = true
  drained : m.state.ring.blockReady = false

/-- A run that cannot go on has come to rest. -/
theorem quiet_of_stuck (h : Inv initial m a) (hl : Live m) (hsound : Sound m)
    (hstop : m.state.stop = true → m.state.ring.filled < m.state.ring.blockSize)
    (hstuck : ∀ actor, m.step? actor = none) : Quiet m where
  idle q hq := by
    obtain ⟨t, ht⟩ := List.mem_iff_getElem?.1 hq
    exact idle_of_stuck h hl hstuck ht
  drained := by
    rcases away_of_stuck h.exclusive hstuck with hw | ⟨panicked, hw⟩
    · exact (hl.asleep hw).1
    · rcases hl.left (by rw [hw]; rfl) with hleaving | hfailed | hst
      · rw [hw] at hleaving
        cases hleaving
      · exact absurd hsound.failure hfailed
      · exact decide_eq_false (Nat.not_le.2 (hstop hst))

theorem Follows.quiet_of_stuck (hf : Follows initial ρ past m p) (h : Inv initial m a) (hl : Live m)
    (hsound : Sound m) (hstuck : ∀ actor, m.step? actor = none) : Quiet m :=
  Machine.quiet_of_stuck h hl hsound (fun hst => hf.drained (.inr hst)) hstuck

/-- Where a run is quiet, the log has done what the prompt log does. -/
theorem Follows.soFar_eq {flushed : Nat} (hf : Follows initial ρ past m p)
    (h : Consistent initial m ⟨past.log, past.durable, flushed⟩) (hq : Quiet m) :
    m.soFar initial past.log past.deviceCalls = past.requests.foldl Prompt.call ρ ∧
      m.writer.rewritten? = none ∧ m.state.totals.appendedBytes = past.log.length ∧
      past.requests = past.calls.map Call.request := by
  have hlt : m.state.ring.filled < m.state.ring.blockSize := Nat.not_le.1 (of_decide_eq_false hq.drained)
  have hidle := hq.idle p (by rw [hf.clients]; exact List.mem_cons_self)
  obtain ⟨clients, hdue, hasked, happended, -⟩ := hf
  cases p with
  | idle last =>
    refine ⟨(h.due_eq_soFar hlt).symm.trans hdue, h.writes.rewritten?_eq_none hlt, happended, ?_⟩
    exact hasked.trans (List.append_nil _)
  | _ => cases hidle

/-- What two runs that have come to rest agree on. The calls to the device are the same ones in the same
    order, so the device has read and written the same blocks as often. -/
structure SameOutcome (past past' : History δ) (m m' : Machine δ) : Prop where
  calls : past.calls.map (fun c => (c.request, c.reply)) =
    past'.calls.map (fun c => (c.request, c.reply))
  length : m.state.length = m'.state.length
  contents : contents m.device = contents m'.device
  deviceCalls : past.deviceCalls = past'.deviceCalls
  cached : ∀ i, m.state.cache.held? i = m'.state.cache.held? i
  totals : { m.state.totals with flushes := 0 } = { m'.state.totals with flushes := 0 }

omit [Device δ] [LawfulDevice δ] in
/-- What has been done tells the log, the calls to the device, the cache and the counts. -/
theorem soFar_inj {log log' : Bytes} {calls calls' : List DeviceCall}
    (hw : m.writer.rewritten? = none) (hw' : m'.writer.rewritten? = none)
    (h : m.soFar initial log calls = m'.soFar initial log' calls') :
    log = log' ∧ calls = calls' ∧ m.state.cache.length = m'.state.cache.length ∧
      m.state.cache.get? = m'.state.cache.get? ∧
      m.state.totals.writtenBlocks = m'.state.totals.writtenBlocks ∧
      m.state.totals.hits = m'.state.totals.hits ∧ m.state.totals.misses = m'.state.totals.misses := by
  have hcached : m.state.cache.get? = m'.state.cache.get? := by
    rw [← soFar_cached hw, h, soFar_cached hw']
  have hwritten := congrArg Prompt.written h
  simp only [soFar, hw, hw', Option.isSome_none, Bool.false_eq_true, ↓reduceIte, Nat.add_zero] at hwritten
  exact ⟨congrArg Prompt.log h, congrArg Prompt.deviceCalls h, congrArg Prompt.slots h, hcached,
    hwritten, congrArg Prompt.hits h, congrArg Prompt.misses h⟩

/-- Two runs on the way to the same prompt log agree when they have come there. -/
theorem Follows.sameOutcome (hf : Follows initial ρ past m p) (hf' : Follows initial ρ past' m' p')
    {flushed flushed' : Nat} (h : Consistent initial m ⟨past.log, past.durable, flushed⟩)
    (h' : Consistent initial m' ⟨past'.log, past'.durable, flushed'⟩) (hq : Quiet m) (hq' : Quiet m')
    (hsame : past.requests = past'.requests)
    (hagree : ∀ (i : Nat) (c c' : Call), past.calls[i]? = some c → past'.calls[i]? = some c' →
      c.request = c'.request ∧ c.reply = c'.reply)
    (hcontents : contents m.device = past.deviceCalls.foldl DeviceCall.onto initial)
    (hcontents' : contents m'.device = past'.deviceCalls.foldl DeviceCall.onto initial) :
    SameOutcome past past' m m' := by
  obtain ⟨hdone, hw, happended, hasked⟩ := hf.soFar_eq h hq
  obtain ⟨hdone', hw', happended', hasked'⟩ := hf'.soFar_eq h' hq'
  rw [hsame, ← hdone'] at hdone
  obtain ⟨hlog, hcalls, hslots, hcached, hwritten, hhits, hmisses⟩ := soFar_inj hw hw' hdone
  have hlength : past.calls.length = past'.calls.length := by
    rw [hasked, hasked'] at hsame
    simpa using congrArg List.length hsame
  exact
    { calls := by
        refine List.ext_getElem (by simpa using hlength) fun i hi hi' => ?_
        rw [List.length_map] at hi hi'
        obtain ⟨hreq, hreply⟩ :=
          hagree i _ _ (List.getElem?_eq_getElem hi) (List.getElem?_eq_getElem hi')
        rw [List.getElem_map, List.getElem_map, hreq, hreply]
      length := by
        rw [h.buffers.length_eq, h'.buffers.length_eq]
        exact congrArg List.length hlog
      contents := by rw [hcontents, hcontents', hcalls]
      deviceCalls := hcalls
      cached := Cache.held?_eq_of_get?_eq h.caches.valid h'.caches.valid hslots hcached
      totals := by simp only [happended, happended', hlog, hwritten, hhits, hmisses] }

/-- What a log with one client does for it does not depend on the schedule. Take two runs with the same
    calls, in neither of which a call to the device has failed, or could. As far as both have come,
    every call is answered the same. Where both are quiet, they agree on the length, on what the
    device contains and has been asked for, on every slot of the cache, and on the totals, but for the
    number of flushes that found something to do. And each run comes to rest if no more calls are
    given, and is quiet then. -/
theorem schedule_independent (h₀ : open? device settings 1 = .ok m₀) (h : Reaches m₀ past m)
    (h' : Reaches m₀ past' m') (hsame : past.requests = past'.requests)
    (hfree : past.Unfailing ∨
      past.Faultless ∧ Addressable δ (Device.blockSize device) past.log.length)
    (hfree' : past'.Unfailing ∨
      past'.Faultless ∧ Addressable δ (Device.blockSize device) past'.log.length) :
    (∀ (i : Nat) (c c' : Call), past.calls[i]? = some c → past'.calls[i]? = some c' →
      c.request = c'.request ∧ c.reply = c'.reply) ∧
    (Quiet m → Quiet m' → SameOutcome past past' m m') ∧
    m.Settles ∧ ((∀ actor, m.step? actor = none) → Quiet m) := by
  have hu : past.Unfailing := hfree.elim id fun hf => unfailing_of_faultless h₀ h hf.1 hf.2
  have hu' : past'.Unfailing := hfree'.elim id fun hf => unfailing_of_faultless h₀ h' hf.1 hf.2
  obtain ⟨p, hf⟩ := follows_of_reaches h₀ h hu
  obtain ⟨p', hf'⟩ := follows_of_reaches h₀ h' hu'
  obtain ⟨flushed, log, hinv, -, htrace⟩ := ledger_of_reaches h₀ h
  obtain ⟨flushed', log', hinv', -, htrace'⟩ := ledger_of_reaches h₀ h'
  obtain ⟨hsound, hreplies⟩ := sound_of_reaches h₀ h hu
  obtain ⟨-, hreplies'⟩ := sound_of_reaches h₀ h' hu'
  have hagree : ∀ (i : Nat) (c c' : Call), past.calls[i]? = some c → past'.calls[i]? = some c' →
      c.request = c'.request ∧ c.reply = c'.reply := by
    intro i c c' hc hc'
    exact (htrace.exact hreplies).agree (htrace'.exact hreplies') ⟨_, hf.asked.symm⟩
      (hsame ▸ ⟨_, hf'.asked.symm⟩) hc hc'
  refine ⟨hagree, fun hq hq' => ?_, settles_of_reaches h₀ h,
    hf.quiet_of_stuck hinv (live_of_reaches h₀ h) hsound⟩
  exact hf.sameOutcome hf' hinv.consistent hinv'.consistent hq hq' hsame hagree
    (contents_of_reaches h₀ h) (contents_of_reaches h₀ h')

/-- The writer drains the first block before the read is given, or not before the read waits for it. -/
theorem schedule_independent_lagging : ∃ (m₀ m m' : Machine Device.Memory)
    (past past' : History Device.Memory),
    open? { blockSize := 2, contents := .ofList [] } { bufferBlocks := 2, cacheBlocks := 2 } 1 =
      .ok m₀ ∧ Reaches m₀ past m ∧ Reaches m₀ past' m' ∧ past.requests = past'.requests ∧
    past.Unfailing ∧ past'.Unfailing ∧ past.length ≠ past'.length ∧ Quiet m ∧ Quiet m' ∧
    m.state.cache.held? 1 = some (1, [3, 0]) ∧ SameOutcome past past' m m' := by
  let called : List Move := [.submit 0 (.append [1, 2, 3]), .step (.client 0), .step (.client 0)]
  let flush : List Move := [.submit 0 (.read 0 3), .step (.client 0), .step (.client 0)]
  let eager : List Move := called ++ List.replicate 4 (.step .writer) ++ flush ++
    List.replicate 4 (.step .writer) ++ List.replicate 5 (.step (.client 0))
  let lagging : List Move := called ++ flush ++ List.replicate 7 (.step .writer) ++
    List.replicate 5 (.step (.client 0))
  have h₀ : open? ({ blockSize := 2, contents := .ofList [] } : Device.Memory)
      { bufferBlocks := 2, cacheBlocks := 2 } 1 = .ok _ := rfl
  refine ⟨_, _, _, _, _, h₀, reaches_run? eager (by decide +kernel),
    reaches_run? lagging (by decide +kernel), by decide +kernel, by decide +kernel, by decide +kernel,
    by decide +kernel, ⟨by decide +kernel, by decide +kernel⟩, ⟨by decide +kernel, by decide +kernel⟩,
    by decide +kernel, ?_⟩
  exact (schedule_independent h₀ (reaches_run? eager (by decide +kernel))
    (reaches_run? lagging (by decide +kernel)) (by decide +kernel) (.inl (by decide +kernel))
    (.inl (by decide +kernel))).2.1 ⟨by decide +kernel, by decide +kernel⟩
    ⟨by decide +kernel, by decide +kernel⟩

end Machine

end BlockLog
