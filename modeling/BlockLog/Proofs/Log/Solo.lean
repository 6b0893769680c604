import BlockLog.Proofs.Log.Amplification
import BlockLog.Proofs.Log.Durability
import BlockLog.Proofs.Log.PromptTotals
import BlockLog.Proofs.Log.Schedule

/-! One client at work while the others stand idle. However many clients a log has and whatever they have
    done before, from then on the log does what a prompt log does for the one client, whenever the
    writer takes its steps; and where it is quiet, it has done so.

        before:   clients, writer       nobody under way, `ρ` is due
        during:   call ─ ─ call ─ writer ─ ─ call ─ ─ writer       ρ.call.call.call is due -/

namespace BlockLog

namespace History

/-- Every call that is given is given to client `t`. -/
def GivenBy {δ : Type} (t : Nat) (past : History δ) : Prop :=
  ∀ now ∈ past, ∀ u request, now.move = .submit u request → u = t

theorem Unfailing.before {δ : Type} [Device δ] {more past : History δ} (h : (more ++ past).Unfailing) :
    past.Unfailing := by
  induction more with
  | nil => exact h
  | cons now more ih => exact ih (Unfailing.cons h).1

end History

namespace Machine

open LawfulDevice

variable {δ : Type} [Device δ] [LawfulDevice δ] {initial : Bytes} {m m' m₁ : Machine δ} {a : Account}
  {t u : Nat} {p p' : ClientPoint} {before during : History δ} {ρ : Prompt}

/-- The last call is over, and it had a flush as its first part. -/
def FlushedLast (during : History δ) (p : ClientPoint) : Prop :=
  p.isIdle = true ∧ ∃ request, during.requests.getLast? = some request ∧ request.isFlushing = true

/-- Client `t` stands at `p` and the others stand idle. When its call is over and the writer is through
    with what is buffered, the log will have done what the prompt log `ρ` does for the calls given
    during the last part of the run. -/
structure Solo (initial : Bytes) (ρ : Prompt) (t : Nat) (before during : History δ) (m : Machine δ)
    (p : ClientPoint) : Prop where
  place : m.clients[t]? = some p
  others : ∀ u q, u ≠ t → m.clients[u]? = some q → q.isIdle = true
  due : (m.due initial (during ++ before).log (during ++ before).deviceCalls).after p =
    during.requests.foldl Prompt.call ρ
  asked : ∃ ended, (during ++ before).calls = before.calls ++ ended ∧
    during.requests = ended.map Call.request ++ p.request?.toList ∧
    ∀ last, p = .idle last → ∀ c, ended.getLast? = some c → last = some c.reply
  drained : p.isReading = true ∨ m.state.stop = true ∨ FlushedLast during p →
    m.state.ring.filled < m.state.ring.blockSize
  stored : p.isReading = true → (during ++ before).durable = (during ++ before).log.length

omit [LawfulDevice δ] in
/-- Before its first call the client's log is the one that the prompt log starts with. -/
theorem solo_start (ht : t < m.clients.length) (hidle : ∀ q ∈ m.clients, q.isIdle = true)
    (hstop : m.state.stop = true → m.state.ring.filled < m.state.ring.blockSize) :
    ∃ p, Solo initial (m.due initial before.log before.deviceCalls) t before [] m p := by
  have hp := List.getElem?_eq_getElem ht
  have hi := hidle _ (List.getElem_mem ht)
  cases hq : m.clients[t] with
  | idle last =>
    exact ⟨.idle last,
      { place := hp.trans (congrArg some hq)
        others := fun u q _ hmem => hidle q (List.mem_of_getElem? hmem)
        due := rfl
        asked := ⟨[], (List.append_nil _).symm, rfl, fun _ _ c hc => by cases hc⟩
        drained := by
          rintro (hread | hst | ⟨-, request, hlast, -⟩)
          · cases hread
          · exact hstop hst
          · cases hlast
        stored := fun hread => by cases hread }⟩
  | _ =>
    rw [hq] at hi
    cases hi

omit [LawfulDevice δ] in
theorem Solo.submit (h : Solo initial ρ t before during m p) {request : Request}
    (hm : m.submit? t request = some m') :
    Solo initial ρ t before (⟨m, .submit t request, m'⟩ :: during) m' request.entry := by
  obtain ⟨last, hp, -, hcase⟩ := submit?_cases hm
  have hidle : p = .idle last := Option.some.inj (h.place.symm.trans hp)
  subst hidle
  have hplaced := submit?_placed hm
  have hstate := (submit?_frame hm).1
  have hsame : Undisturbed m m' := by
    rcases hcase with ⟨-, rfl⟩ | ⟨-, -, rfl⟩ <;> exact .of_parts rfl rfl
  have hlog := History.log_submit m m' t request (during ++ before)
  have hcalls := History.deviceCalls_submit m m' t request (during ++ before)
  have hnotreading : request.entry.isReading = false := by cases request <;> rfl
  exact
    { place := hplaced.self
      others := fun u q hut hq => by
        rcases hplaced.cases hq with ⟨heq, -⟩ | ⟨-, hq⟩
        · exact absurd heq hut
        · exact h.others u q hut hq
      due := by
        rw [List.cons_append, hlog, hcalls, hsame.due_eq, Prompt.after_entry, History.requests,
          List.foldl_append, ← h.due]
        rfl
      asked := by
        obtain ⟨ended, hended, hrequests, -⟩ := h.asked
        refine ⟨ended, (List.append_nil _).trans hended, ?_, fun last hlast => ?_⟩
        · rw [History.requests, hrequests, Request.request?_entry]
          simp [Move.request?, ClientPoint.request?]
        · cases request <;> cases hlast
      drained := by
        rw [hstate, hnotreading]
        rintro (hread | hstop | ⟨hi, -⟩)
        · cases hread
        · exact h.drained (.inr (.inl hstop))
        · cases request <;> cases hi
      stored := by
        rw [hnotreading]
        exact fun hread => by cases hread }

theorem Solo.writerStep {flushed : Nat} (h : Solo initial ρ t before during m p)
    (hinv : Inv initial m ⟨(during ++ before).log, (during ++ before).durable, flushed⟩)
    (hle : History.durable (⟨m, .step .writer, m'⟩ :: (during ++ before)) ≤
      (during ++ before).log.length)
    (hsound : Sound m) (hd : ∀ call, m.deviceCall? (.step .writer) = some call → call.Succeeded)
    (hs : WriterStep m m') :
    ∃ q, Solo initial ρ t before (⟨m, .step .writer, m'⟩ :: during) m' q := by
  obtain ⟨q, hq, hw⟩ := hs.exists_woken h.place
  obtain ⟨-, hfilled, hblockSize⟩ := hs.totals_eq
  have hlog := History.log_writer m m' (during ++ before)
  have hrequests := History.requests_step m m' .writer during
  exact ⟨q,
    { place := hq
      others := fun u q' hut hq' => by
        obtain ⟨p', hp', hwoken⟩ := hs.woken_from hq'
        rw [hwoken.isIdle]
        exact h.others u p' hut hp'
      due := by
        rw [List.cons_append, hlog, hrequests, ← h.due, Prompt.after_woken _ hw]
        exact congrArg (Prompt.after · p) (hs.due_eq hinv.consistent hsound hd)
      asked := by
        obtain ⟨ended, hended, hasked, hreplied⟩ := h.asked
        refine ⟨ended, (List.append_nil _).trans hended, ?_, fun last hlast => ?_⟩
        · rw [hrequests, hw.request?]
          exact hasked
        · subst hlast
          cases hw
          exact hreplied last rfl
      drained := by
        rw [hs.stop_eq, hw.isReading, hblockSize, FlushedLast, hw.isIdle, hrequests]
        exact fun hor => Nat.lt_of_le_of_lt hfilled (h.drained hor)
      stored := fun hread => by
        rw [hw.isReading] at hread
        have hmore := hinv.durable_le (.step .writer)
        have hall := h.stored hread
        rw [List.cons_append, hlog]
        exact Nat.le_antisymm hle (hall ▸ hmore) }⟩

/-- The flush of a read ends with the whole log on the device, and nothing that the read does after it
    changes that. -/
theorem ClientStep.stored (h : Inv initial m a) (hp : m.clients[t]? = some p)
    (hs : ClientStep m t p p' m₁) (hbefore : p.isReading = true → a.durable = a.log.length)
    (hread : p'.isReading = true) :
    m.pushes (.step (.client t)) = [] ∧ a.durable = a.log.length := by
  have hc := h.consistent
  cases hs with
  | @refuseFlush purpose | @flushFails purpose => cases purpose <;> cases hread
  | flushNothing _ _ empty | flushDone _ _ empty =>
    exact ⟨pushes_eq_nil hp (.inl rfl), hc.lands.durable_eq hc.buffers empty⟩
  | beginRead | readHit | readMiss => exact ⟨pushes_eq_nil hp (.inl rfl), hbefore rfl⟩
  | _ => cases hread

/-- A call with a flush ends with less than a block in the ring. -/
theorem ClientStep.filled_lt_of_isFlushing (h : Inv initial m a) (hsound : Sound m)
    (hp : m.clients[t]? = some p) (hs : ClientStep m t p p' m₁) {request : Request}
    (hreq : p.request? = some request) (hflush : request.isFlushing = true)
    (hidle : p'.isIdle = true)
    (hread : p.isReading = true → m.state.ring.filled < m.state.ring.blockSize) :
    m₁.state.ring.filled < m₁.state.ring.blockSize := by
  have hserves := h.serves t p hp
  cases hs with
  | refuseAppend =>
    cases hreq
    cases hflush
  | feedNothing _ feeds | feedAll _ feeds =>
    obtain ⟨hrequest, -⟩ := request?_of_feeds feeds
    rw [hreq] at hrequest
    cases hrequest
    cases hflush
  | feedRefused _ _ _ failed | refuseFlush _ failed | flushFails _ failed | refuseRead _ failed =>
    exact absurd failed hsound.not_failed
  | flushNothing _ _ empty =>
    show m.state.ring.filled < m.state.ring.blockSize
    rw [empty]
    exact h.consistent.buffers.ring.blockSize_pos
  | flushDone _ _ empty =>
    rw [← hserves.1]
    exact h.consistent.buffers.settle_filled_lt empty
  | readFails | readDone => exact hread rfl
  | joinDegraded _ _ failed =>
    rw [LogState.isDegraded, hsound.failure] at failed
    cases failed
  | @sync flushed =>
    cases flushed with
    | ok => exact (hserves.1.drained rfl).filled_lt
    | error e => exact absurd hsound.failure (hserves.1.failed e rfl).1
  | _ => cases hidle

theorem Solo.clientStep {flushed : Nat} (h : Solo initial ρ t before during m p)
    (hinv : Inv initial m ⟨(during ++ before).log, (during ++ before).durable, flushed⟩)
    (hl : Live m) (hsound : Sound m) (hb : History.Booked (during ++ before) m)
    (hd : ∀ call, m.deviceCall? (.step (.client t)) = some call → call.Succeeded)
    (hs : ClientStep m t p p' m₁) :
    Solo initial ρ t before (⟨m, .step (.client t), m₁.setClient t p'⟩ :: during)
      (m₁.setClient t p') p' := by
  have hplaced := hs.placed h.place
  have hrequests := History.requests_step m (m₁.setClient t p') (.client t) during
  exact
    { place := hplaced.self
      others := fun u q hut hq => by
        rcases hplaced.cases hq with ⟨heq, -⟩ | ⟨-, hq⟩
        · exact absurd heq hut
        · exact h.others u q hut hq
      due := by
        rw [hrequests, ← h.due]
        show (m₁.due initial _ _).after p' = _
        exact hs.due_after hinv hsound (fun hr => ⟨h.drained (.inl hr), h.stored hr⟩) hd h.place
      asked := by
        obtain ⟨ended, hended, hasked, -⟩ := h.asked
        obtain ⟨begun, request, hreq, -, ⟨reply, rfl, hending⟩ | ⟨hgoes, hending⟩⟩ :=
          History.calls_clientStep hb h.place hs
        · refine ⟨ended ++ [⟨t, request, begun, (during ++ before).length, reply⟩], ?_, ?_, ?_⟩
          · rw [List.cons_append, History.calls, hending, hended, List.append_assoc]
            rfl
          · rw [hrequests, hasked, hreq, List.map_append]
            exact (List.append_nil _).symm
          · intro last hlast c hc
            rw [List.getLast?_concat] at hc
            cases hlast
            cases hc
            rfl
        · refine ⟨ended, ?_, ?_, fun last hlast => ?_⟩
          · rw [List.cons_append, History.calls, hending, hended]
            exact List.append_nil _
          · rw [hrequests, hasked, hreq, hgoes]
          · rw [hlast] at hgoes
            cases hgoes
      drained := by
        show _ ∨ m₁.state.stop = true ∨ _ → m₁.state.ring.filled < m₁.state.ring.blockSize
        have hreading : p.isReading = true → m.state.ring.filled < m.state.ring.blockSize :=
          fun hr => h.drained (.inl hr)
        rintro (hread | hstop | ⟨hi, request, hlast, hflush⟩)
        · exact hs.filled_lt_of_isReading hinv h.place hreading hread
        · exact hs.filled_lt_of_stop hinv hl hsound h.place (fun hst => h.drained (.inr (.inl hst)))
            hstop
        · obtain ⟨ended, -, hasked, -⟩ := h.asked
          obtain ⟨given, hreq⟩ := hs.request?_ne_none
          rw [hrequests, hasked, hreq, Option.toList_some, List.getLast?_concat] at hlast
          cases hlast
          exact hs.filled_lt_of_isFlushing hinv hsound h.place hreq hflush hi hreading
      stored := fun hread => by
        obtain ⟨hpush, hall⟩ := hs.stored hinv h.place h.stored hread
        rw [List.cons_append, History.log, hpush, List.append_nil, ← hall]
        exact durable_deviceCall?_client .. }

/-! ### Runs -/

variable {device : δ} {settings : Settings} {clients : Nat} {m₀ : Machine δ}

theorem solo_of_reaches (h₀ : open? device settings clients = .ok m₀) (h₁ : Reaches m₀ before m₁)
    (hidle : ∀ q ∈ m₁.clients, q.isIdle = true) (ht : t < m₁.clients.length)
    (hstop : m₁.state.stop = true → m₁.state.ring.filled < m₁.state.ring.blockSize)
    (h : Reaches m₁ during m) (hgiven : during.GivenBy t) (hu : (during ++ before).Unfailing) :
    ∃ p, Solo (contents device) (m₁.due (contents device) before.log before.deviceCalls) t before
      during m p := by
  induction h with
  | start => exact solo_start ht hidle hstop
  | @move during m m' move reached next ih =>
    have hgivenBefore : during.GivenBy t := fun now hnow =>
      hgiven now (List.mem_cons_of_mem _ hnow)
    obtain ⟨hbefore, hd⟩ := hu.cons
    obtain ⟨p, hsolo⟩ := ih hgivenBefore hbefore
    have hreached := h₁.trans reached
    obtain ⟨⟨flushed, hinv⟩, -⟩ := inv_of_reaches h₀ hreached
    have hsound := (sound_of_reaches h₀ hreached hbefore).1
    match move, next with
    | .submit u request, next =>
      cases hgiven _ List.mem_cons_self u request rfl
      exact ⟨_, hsolo.submit next⟩
    | .step .writer, next =>
      obtain ⟨⟨flushed', hinv'⟩, -⟩ := inv_of_reaches h₀ (hreached.move (.step .writer) next)
      have hle := hinv'.consistent.lands.durable_le
      rw [History.log_writer] at hle
      exact hsolo.writerStep hinv hle hsound hd (writerStep?_cases next)
    | .step (.client u), next =>
      obtain ⟨q, q', m₂, hq, hs, rfl⟩ := clientStep?_cases next
      by_cases hut : u = t
      · subst hut
        cases hsolo.place.symm.trans hq
        exact ⟨q', hsolo.clientStep hinv (live_of_reaches h₀ hreached) hsound
          (History.booked_of_reaches h₀ hreached) hd hs⟩
      · have hi := hsolo.others u q hut hq
        rw [hs.not_idle] at hi
        cases hi
  | faults d _ same ih =>
    obtain ⟨p, hsolo⟩ := ih hgiven hu
    exact ⟨p, ⟨hsolo.place, hsolo.others, hsolo.due, hsolo.asked, hsolo.drained, hsolo.stored⟩⟩

/-- Where the client has its reply and less than a block is in the ring, the log has done what the prompt
    log does. -/
theorem Solo.soFar_eq (h : Solo initial ρ t before during m p) {flushed : Nat}
    (hc : Consistent initial m ⟨(during ++ before).log, (during ++ before).durable, flushed⟩)
    (hidle : p.isIdle = true) (hlt : m.state.ring.filled < m.state.ring.blockSize) :
    m.soFar initial (during ++ before).log (during ++ before).deviceCalls =
      during.requests.foldl Prompt.call ρ ∧ m.writer.rewritten? = none := by
  have hdue := h.due
  cases p with
  | idle last => exact ⟨(hc.due_eq_soFar hlt).symm.trans hdue, hc.writes.rewritten?_eq_none hlt⟩
  | _ => cases hidle

omit [LawfulDevice δ] in
/-- The client's last reply answers its last call as the string of everything appended before says. -/
theorem Solo.reply_eq (h : Solo initial ρ t before during m p) {log : Bytes}
    (htrace : Trace Exact (during ++ before).calls log) (hlog : ρ.log = payloads before.calls)
    {last : Option Reply} (hp : p = .idle last) {earlier : List Request} {request : Request}
    (hgiven : during.requests = earlier ++ [request]) :
    last = some (request.answer (earlier.foldl Prompt.call ρ).log) := by
  obtain ⟨ended, hended, hasked, hreplied⟩ := h.asked
  rw [hp, hgiven] at hasked
  have hsplit : earlier ++ [request] = ended.map Call.request := hasked.trans (List.append_nil _)
  obtain ⟨done, c, rfl, hdone, hc⟩ := List.append_eq_map_iff.1 hsplit
  obtain ⟨c, rfl, hrequest⟩ := List.map_eq_singleton_iff.1 hc
  rw [hreplied last hp c (List.getLast?_concat ..)]
  rw [← List.append_assoc] at hended
  have hreply := htrace.reply_eq hended
  rw [hrequest, payloads_append, ← hlog] at hreply
  rw [hreply, (Prompt.foldl_call_frame earlier ρ).2.2, ← hdone, List.map_map]
  rfl

/-- When the last call had a flush as its first part and is over, less than a block is in the ring. -/
theorem filled_lt_of_flushed (h₀ : open? device settings clients = .ok m₀) (h₁ : Reaches m₀ before m₁)
    (hidle : ∀ q ∈ m₁.clients, q.isIdle = true) (ht : t < m₁.clients.length)
    (hstop : m₁.state.stop = true → m₁.state.ring.filled < m₁.state.ring.blockSize)
    (h : Reaches m₁ during m) (hgiven : during.GivenBy t) (hu : (during ++ before).Unfailing)
    (hidle' : ∀ q ∈ m.clients, q.isIdle = true) {request : Request}
    (hlast : during.requests.getLast? = some request) (hflush : request.isFlushing = true) :
    m.state.ring.filled < m.state.ring.blockSize := by
  obtain ⟨p, hsolo⟩ := solo_of_reaches h₀ h₁ hidle ht hstop h hgiven hu
  exact hsolo.drained (.inr (.inr ⟨hidle' p (List.mem_of_getElem? hsolo.place), request, hlast, hflush⟩))

/-- Where nobody is under way and less than a block is in the ring, a log whose calls have come from one
    client since it stood idle has done, counts and contains what the prompt log does, and the client
    has the reply that goes with its last call. -/
theorem served_of_reaches (h₀ : open? device settings clients = .ok m₀) (h₁ : Reaches m₀ before m₁)
    (hidle : ∀ q ∈ m₁.clients, q.isIdle = true) (ht : t < m₁.clients.length)
    (hstop : m₁.state.stop = true → m₁.state.ring.filled < m₁.state.ring.blockSize)
    (h : Reaches m₁ during m) (hgiven : during.GivenBy t) (hu : (during ++ before).Unfailing)
    (hidle' : ∀ q ∈ m.clients, q.isIdle = true) (hlt : m.state.ring.filled < m.state.ring.blockSize)
    {σ : Prompt} (hσ : σ = during.requests.foldl Prompt.call
      (m₁.due (contents device) before.log before.deviceCalls)) :
    m.state.totals =
      { appendedBytes := σ.log.length, writtenBlocks := σ.written,
        flushes := m.state.totals.flushes, hits := σ.hits, misses := σ.misses } ∧
    contents m.device = σ.stored ∧
    ∀ earlier request, during.requests = earlier ++ [request] → m.reply? t =
      some (request.answer (earlier.foldl Prompt.call
        (m₁.due (contents device) before.log before.deviceCalls)).log) := by
  obtain ⟨p, hsolo⟩ := solo_of_reaches h₀ h₁ hidle ht hstop h hgiven hu
  have hreached := h₁.trans h
  obtain ⟨⟨flushed, hinv⟩, -⟩ := inv_of_reaches h₀ hreached
  have hi := hidle' p (List.mem_of_getElem? hsolo.place)
  obtain ⟨hsoFar, hwrote⟩ := hsolo.soFar_eq hinv.consistent hi hlt
  obtain ⟨hlog, happended⟩ := log_of_idle h₀ hreached hu hidle'
  rw [hσ, ← hsoFar]
  refine ⟨?_, contents_of_reaches h₀ hreached, fun earlier request hrequests => ?_⟩
  · show m.state.totals = Totals.mk _ (_ + if m.writer.rewritten?.isSome then 1 else 0) _ _ _
    rw [hwrote, show ((m.soFar _ _ _).log).length = _ from happended.symm]
    rfl
  · obtain ⟨_, log, -, -, htrace⟩ := ledger_of_reaches h₀ hreached
    have hexact := htrace.exact (sound_of_reaches h₀ hreached hu).2
    have hbefore := (log_of_idle h₀ h₁ hu.before hidle).1
    cases p with
    | idle last =>
      rw [Machine.reply?, hsolo.place]
      exact hsolo.reply_eq hexact hbefore rfl hrequests
    | _ => cases hi

end Machine

end BlockLog
