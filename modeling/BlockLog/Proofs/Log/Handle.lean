import BlockLog.Log.Handle
import BlockLog.Proofs.Log.Appending

/-! A log in the hands of its owner, on a device that does not fail. From the moment when it is handed
    over, its calls come from one client; and each of them returns, with the answer that goes with it,
    and leaves the log at rest.

        before:   many clients, until nobody is under way
        during:   call ─ ─▶ rest   call ─ ─▶ rest   call ─ ─▶ rest -/

namespace BlockLog

/-- Appends of `pieces` bring the pieces. -/
theorem Request.payloads_of_appends (pieces : List Bytes) :
    (pieces.map Request.append).map Request.payload = pieces := by
  rw [List.map_map]
  exact List.map_id pieces

namespace History

variable {δ : Type}

theorem GivenBy.steps {t : Nat} {steps past : History δ} (h : past.GivenBy t)
    (hsteps : steps.OnlySteps) : (steps ++ past).GivenBy t := by
  intro now hnow u request hmove
  rcases List.mem_append.1 hnow with hstep | hpast
  · obtain ⟨actor, hactor⟩ := hsteps now hstep
    rw [hactor] at hmove
    cases hmove
  · exact h now hpast u request hmove

theorem GivenBy.submit {t : Nat} {past : History δ} (h : past.GivenBy t) (m m' : Machine δ)
    (request : Request) : GivenBy t (⟨m, .submit t request, m'⟩ :: past) := by
  intro now hnow u given hmove
  rcases List.mem_cons.1 hnow with rfl | hpast
  · cases hmove
    rfl
  · exact h now hpast u given hmove

theorem Drained.steps {steps past : History δ} (h : past.Drained) (hsteps : steps.OnlySteps) :
    (steps ++ past).Drained := by
  intro now hnow hflush
  rcases List.mem_append.1 hnow with hstep | hpast
  · obtain ⟨actor, hactor⟩ := hsteps now hstep
    rw [hactor] at hflush
    cases hflush
  · exact h now hpast hflush

/-- Appends have no flush. -/
theorem unevenFlushes_of_appends (blockSize : Nat) {past : History δ} (h : past.AppendsOnly) :
    past.unevenFlushes blockSize = 0 := by
  induction past with
  | nil => rfl
  | cons now past ih =>
    have hbefore : AppendsOnly past := fun request hr => h request (List.mem_append_left _ hr)
    rw [unevenFlushes, ih hbefore, if_neg]
    rintro ⟨hflush, -⟩
    cases hmove : now.move with
    | submit t request =>
      rw [hmove] at hflush
      have hnot := h request (List.mem_append_right _ (by rw [hmove]; exact List.mem_singleton.2 rfl))
      rw [show request.isFlushing = true from hflush] at hnot
      cases hnot
    | step actor =>
      rw [hmove] at hflush
      cases hflush

theorem given_append (more past : History δ) : (more ++ past).given = past.given + more.given := by
  rw [given, given, given, requests_append, List.map_append, List.flatten_append, List.length_append]

theorem given_of_requests {past past' : History δ} {request : Request}
    (h : past'.requests = past.requests ++ [request]) :
    past'.given = past.given + request.payload.length := by
  simp [given, h]

theorem given_steps {steps : History δ} (past : History δ) (hsteps : steps.OnlySteps) :
    (steps ++ past).given = past.given := by
  rw [given, requests_append, requests_of_onlySteps hsteps, List.append_nil, given]

end History

namespace Machine

open LawfulDevice

variable {δ : Type} [Device δ] [LawfulDevice δ] {device : δ} {settings : Settings}
  {clients limit : Nat} {m₀ m₁ m m' : Machine δ} {before during past : History δ}

/-- A log is open for as long as no close is given. -/
theorem closed_of_reaches (h : Reaches m₁ during m) (hopen : m₁.closed = false)
    (hnone : .close ∉ during.requests) : m.closed = false := by
  induction h with
  | start => exact hopen
  | @move during m m' move _ next ih =>
    have hbefore := ih fun hclose => hnone (List.mem_append_left _ hclose)
    match move, next with
    | .submit t request, next =>
      obtain ⟨-, -, -, ⟨-, rfl⟩ | ⟨rfl, -⟩⟩ := submit?_cases next
      · exact hbefore
      · exact absurd (List.mem_append_right _ (List.mem_singleton.2 rfl)) hnone
    | .step .writer, next => exact (writerStep?_cases next).frame.2.2.trans hbefore
    | .step (.client t), next =>
      obtain ⟨p, p', m₁, -, hs, rfl⟩ := clientStep?_cases next
      exact hs.closed_eq.trans hbefore
  | faults d _ _ ih => exact ih hnone

/-- An open log on a device that does not fail and has room for `limit` bytes of log. Nobody is under way
    on it, and from now on its calls come from client 0. -/
structure Handed (device : δ) (settings : Settings) (clients limit : Nat) (before : History δ)
    (m₀ m₁ : Machine δ) : Prop where
  opened : Machine.open? device settings clients = .ok m₀
  faultless : ∀ d : δ, Faultless d
  room : Addressable δ (Device.blockSize device) limit
  reached : Reaches m₀ before m₁
  idle : ∀ p ∈ m₁.clients, p.isIdle = true
  owner : 0 < clients
  going : m₁.closed = false
  becomes : Device.Becomes device m₁.device

namespace Handed

variable (H : Handed device settings clients limit before m₀ m₁)

include H

theorem unfailing (h : Reaches m₁ during m) (hle : before.given + during.given ≤ limit) :
    (during ++ before).Unfailing := by
  refine unfailing_of_given H.opened (H.reached.trans h) (fun _ _ => H.faultless _) fun n hn =>
    H.room n ?_
  rw [History.given_append] at hn
  omega

theorem owner_lt (h : Reaches m₀ past m) : 0 < m.clients.length := by
  rw [length_clients_of_reaches H.opened h]
  exact H.owner

theorem filled_lt : m₁.state.stop = true → m₁.state.ring.filled < m₁.state.ring.blockSize := by
  intro hstop
  have hclosed := (live_of_reaches H.opened H.reached).closed hstop
  rw [H.going] at hclosed
  cases hclosed

end Handed

/-- Since `m₁` client 0 has called the log, and the log has come to rest each time. -/
structure Rests (m₁ : Machine δ) (during : History δ) (log : Log δ) : Prop where
  reached : Reaches m₁ during log.machine
  given : during.GivenBy 0
  quiet : Quiet log.machine
  drained : during.Drained
  becomes : Device.Becomes m₁.device log.machine.device
  free : log.held = false

namespace Handed

variable (H : Handed device settings clients limit before m₀ m₁)

include H

/-- The schedule brings the log to rest. -/
theorem quiet_settle (h : Reaches m₁ during m) (hgiven : during.GivenBy 0)
    (hle : before.given + during.given ≤ limit) : ∃ steps : History δ, steps.OnlySteps ∧
      Reaches m₁ (steps ++ during) m.settle ∧ Quiet m.settle := by
  obtain ⟨steps, hdry⟩ := runsDry_settle H.opened (H.reached.trans h)
  have hreached : Reaches m₁ (steps ++ during) m.settle := h.trans hdry.reached
  have hall := H.reached.trans hreached
  have hu : ((steps ++ during) ++ before).Unfailing := by
    refine H.unfailing hreached ?_
    rw [History.given_steps during hdry.steps]
    exact hle
  obtain ⟨p, hsolo⟩ := solo_of_reaches H.opened H.reached H.idle (H.owner_lt H.reached) H.filled_lt
    hreached (hgiven.steps hdry.steps) hu
  obtain ⟨⟨flushed, hinv⟩, -⟩ := inv_of_reaches H.opened hall
  exact ⟨steps, hdry.steps, hreached, quiet_of_stuck hinv (live_of_reaches H.opened hall)
    (sound_of_reaches H.opened hall hu).1 (fun hst => hsolo.drained (.inr (.inl hst))) hdry.stuck⟩

/-- Where nobody is under way the calls have brought what is behind the log as it was handed over. -/
theorem log_eq (h : Reaches m₁ during m) (hgiven : during.GivenBy 0)
    (hle : before.given + during.given ≤ limit) (hidle : ∀ p ∈ m.clients, p.isIdle = true) :
    (during ++ before).log = before.log ++ (during.requests.map Request.payload).flatten := by
  obtain ⟨p, hsolo⟩ := solo_of_reaches H.opened H.reached H.idle (H.owner_lt H.reached) H.filled_lt h
    hgiven (H.unfailing h hle)
  have hi := hidle p (List.mem_of_getElem? hsolo.place)
  have hdue := hsolo.due
  cases p with
  | idle last => exact (congrArg Prompt.log hdue).trans (Prompt.foldl_call_frame _ _).2.2
  | _ => cases hi

/-- What can be seen of the log where it is at rest. -/
theorem served {log : Log δ} (A : Rests m₁ during log) (hle : before.given + during.given ≤ limit)
    {σ : Prompt} (hσ : σ = during.requests.foldl Prompt.call
      (m₁.due (contents device) before.log before.deviceCalls)) :
    log.totals =
      { appendedBytes := σ.log.length, writtenBlocks := σ.written, flushes := log.totals.flushes,
        hits := σ.hits, misses := σ.misses } ∧
    contents log.machine.device = σ.stored ∧
    ∀ earlier request, during.requests = earlier ++ [request] → log.machine.reply? 0 =
      some (request.answer (earlier.foldl Prompt.call
        (m₁.due (contents device) before.log before.deviceCalls)).log) :=
  served_of_reaches H.opened H.reached H.idle (H.owner_lt H.reached) H.filled_lt A.reached A.given
    (H.unfailing A.reached hle) A.quiet.idle
    (Nat.not_le.1 (of_decide_eq_false A.quiet.drained)) hσ

/-- Where the last call has a flush and is over, the log has done what the prompt log does, whenever
    the writer has taken its steps. -/
theorem served_last (h : Reaches m₁ during m) (hgiven : during.GivenBy 0)
    (hle : before.given + during.given ≤ limit) (hidle : ∀ p ∈ m.clients, p.isIdle = true)
    {earlier : List Request} {request : Request} (hrequests : during.requests = earlier ++ [request])
    (hflush : request.isFlushing = true) {σ : Prompt} (hσ : σ = earlier.foldl Prompt.call
      (m₁.due (contents device) before.log before.deviceCalls)) :
    m.state.totals =
      { appendedBytes := (σ.call request).log.length, writtenBlocks := (σ.call request).written,
        flushes := m.state.totals.flushes, hits := (σ.call request).hits,
        misses := (σ.call request).misses } ∧
    contents m.device = (σ.call request).stored ∧ m.reply? 0 = some (request.answer σ.log) := by
  have hu := H.unfailing h hle
  have howner := H.owner_lt H.reached
  have hlt := filled_lt_of_flushed H.opened H.reached H.idle howner H.filled_lt h hgiven hu hidle
    (by rw [hrequests]; exact List.getLast?_concat ..) hflush
  obtain ⟨htotals, hstored, hreply⟩ := served_of_reaches H.opened H.reached H.idle howner H.filled_lt h
    hgiven hu hidle hlt (show σ.call request = _ by rw [hrequests, List.foldl_append, ← hσ]; rfl)
  exact ⟨htotals, hstored, hσ ▸ hreply earlier request hrequests⟩

/-- A log that is left to the schedule is at rest. -/
theorem rests_settle (hle : before.given ≤ limit) : ∃ steps : History δ, steps.OnlySteps ∧
    Rests m₁ steps { machine := m₁.settle } := by
  have hgiven : History.GivenBy (δ := δ) 0 [] := fun now hnow => by cases hnow
  have hdrained : History.Drained (δ := δ) [] := fun now hnow => by cases hnow
  obtain ⟨steps, hsteps, hreached, hquiet⟩ := H.quiet_settle .start hgiven hle
  have hgiven' := hgiven.steps hsteps
  have hdrained' := hdrained.steps hsteps
  rw [List.append_nil] at hreached hgiven' hdrained'
  exact ⟨steps, hsteps, hreached, hgiven', hquiet, hdrained', becomes_settle .same, rfl⟩

/-- A call returns with its answer and leaves the log at rest. -/
theorem await {log : Log δ} (A : Rests m₁ during log) (hopen : .close ∉ during.requests)
    (request : Request) (hle : before.given + during.given + request.payload.length ≤ limit) :
    ∃ during' : History δ, Rests m₁ during' (log.await request).1 ∧
      during'.requests = during.requests ++ [request] ∧
      (log.await request).2 = request.answer (during.requests.foldl Prompt.call
        (m₁.due (contents device) before.log before.deviceCalls)).log := by
  have hgoing := closed_of_reaches A.reached H.going hopen
  obtain ⟨called, hcalled⟩ := submit?_of_idle hgoing A.quiet.idle
    (H.owner_lt (H.reached.trans A.reached)) request
  have hgiven := A.given.submit log.machine called request
  have hle' : before.given +
      History.given (⟨log.machine, .submit 0 request, called⟩ :: during) ≤ limit := by
    rw [History.given_submit, ← Nat.add_assoc]
    exact hle
  obtain ⟨steps, hsteps, hreached, hquiet⟩ :=
    H.quiet_settle (A.reached.submit hcalled) hgiven hle'
  have hrequests :
      History.requests (steps ++ ⟨log.machine, .submit 0 request, called⟩ :: during) =
        during.requests ++ [request] := by
    rw [History.requests_append, History.requests_of_onlySteps hsteps, List.append_nil]
    rfl
  have hlog : log.await request = ({ log with machine := called.settle },
      (called.settle.reply? 0).getD (.error .writerPanicked)) := by
    rw [Log.await, Log.call, call, hcalled, A.free]
  have A' : Rests m₁ (steps ++ ⟨log.machine, .submit 0 request, called⟩ :: during)
      (log.await request).1 := by
    rw [hlog]
    refine ⟨hreached, hgiven.steps hsteps, hquiet, History.Drained.steps ?_ hsteps,
      becomes_settle ?_, A.free⟩
    rotate_left
    · rw [(submit?_frame hcalled).2.2]
      exact A.becomes
    intro now hnow hflush
    rcases List.mem_cons.1 hnow with rfl | hpast
    · exact A.quiet.drained
    · exact A.drained now hpast hflush
  have hreply := (H.served A' ?_ rfl).2.2 _ _ hrequests
  · refine ⟨_, A', hrequests, ?_⟩
    rw [hlog] at hreply ⊢
    show (called.settle.reply? 0).getD _ = _
    rw [hreply]
    rfl
  · rw [History.given_steps _ hsteps]
    exact hle'

end Handed

/-! ### A log with one client -/

variable (h₀ : open? device settings 1 = .ok m₀)

include h₀

theorem givenBy_of_reaches (h : Reaches m₀ past m) : past.GivenBy 0 := by
  induction h with
  | start => exact fun now hnow => by cases hnow
  | @move past m m' move reached next ih =>
    intro now hnow t request hmove
    rcases List.mem_cons.1 hnow with rfl | hpast
    · cases hmove
      obtain ⟨last, hp, -⟩ := submit?_cases next
      have hlt := (List.getElem?_eq_some_iff.1 hp).1
      rw [length_clients_of_reaches h₀ reached] at hlt
      omega
    · exact ih now hpast t request hmove
  | faults d _ _ ih => exact ih

/-- If the writer had drained all whole blocks whenever a call with a flush was given, the flushes counted
    are those that were given while the log did not end with a block. -/
theorem flushes_of_drained (h : Reaches m₀ past m) (hu : past.Unfailing)
    (hidle : ∀ p ∈ m.clients, p.isIdle = true) (hd : past.Drained) :
    m.state.totals.flushes = past.unevenFlushes (Device.blockSize device) := by
  obtain ⟨p, ht⟩ := tallied_of_reaches h₀ h fun call hc _ => hu call hc
  obtain ⟨-, -, hblockSize⟩ := inv_of_reaches h₀ h
  have hi := hidle p (by rw [ht.clients]; exact List.mem_cons_self)
  have hcount := (ht.drained hd).1
  rw [ClientPoint.owes_eq_zero _ _ (.inl (by cases p <;> first | rfl | cases hi)), hblockSize] at hcount
  exact hcount

/-- Where nobody is under way the log is what the calls have brought. -/
theorem log_of_requests (h : Reaches m₀ past m) (hu : past.Unfailing)
    (hidle : ∀ p ∈ m.clients, p.isIdle = true) :
    past.log = (past.requests.map Request.payload).flatten := by
  obtain ⟨p, hf⟩ := follows_of_reaches h₀ h hu
  have hi := hidle p (by rw [hf.clients]; exact List.mem_cons_self)
  have hasked := hf.asked
  cases p with
  | idle last =>
    rw [(log_of_idle h₀ h hu hidle).1, hasked, payloads, List.map_append, List.map_map]
    exact congrArg List.flatten (List.append_nil _).symm
  | _ => cases hi

/-- A call that comes after appends only has to take a block back if it has a flush and they do not end with
    a block. -/
theorem unevenFlushes_of_last (blockSize : Nat) (h : Reaches m₀ past m) (hu : past.Unfailing)
    {pieces : List Bytes} {request : Request}
    (hrequests : past.requests = pieces.map Request.append ++ [request]) :
    past.unevenFlushes blockSize =
      if request.isFlushing = true ∧ pieces.flatten.length % blockSize ≠ 0 then 1 else 0 := by
  induction h with
  | start => exact absurd hrequests (by simp [History.requests])
  | @move past m m' move reached next ih =>
    obtain ⟨hbefore, -⟩ := hu.cons
    cases move with
    | step actor =>
      rw [History.requests_step] at hrequests
      rw [History.unevenFlushes, ih hbefore hrequests]
      exact Nat.add_zero _
    | submit t given =>
      obtain ⟨hpast, hgiven⟩ := List.append_inj' hrequests rfl
      cases hgiven
      have hidle : ∀ p ∈ m.clients, p.isIdle = true := by
        intro p hp
        obtain ⟨last, hlast, -⟩ := submit?_cases next
        obtain ⟨u, hu⟩ := List.mem_iff_getElem?.1 hp
        have hone := length_clients_of_reaches h₀ reached
        have hut : u = t := by
          have := (List.getElem?_eq_some_iff.1 hlast).1
          have := (List.getElem?_eq_some_iff.1 hu).1
          omega
        rw [hut, hlast] at hu
        cases hu
        rfl
      have hlog := log_of_requests h₀ reached hbefore hidle
      rw [hpast, Request.payloads_of_appends] at hlog
      have honly : past.AppendsOnly := by
        intro r hr
        rw [hpast] at hr
        obtain ⟨piece, -, rfl⟩ := List.mem_map.1 hr
        rfl
      rw [History.unevenFlushes, History.unevenFlushes_of_appends blockSize honly, hlog]
      exact Nat.zero_add _
  | faults d _ _ ih => exact ih hu hrequests

end Machine

end BlockLog
