import BlockLog.Proofs.Log.Independence

/-! What the calls of a run bring, told of the calls and not of the moments, for any number of clients. No
    more is pushed than has been given: what an append has not pushed yet, its client still has. And
    where nothing has failed, the bytes counted as appended are those of the calls that are over.

        given:   ├── over ──┼── over ──┼──────── under way ────────┤
        log:     ├──────────┼──────────┼── pushed ──┤
        counted: ├──────────┼──────────┤             └─ unpushed ──┘ -/

namespace BlockLog

/-- How many bytes the call under way has still to push. -/
def ClientPoint.unpushed : ClientPoint → Nat
  | .appendCalled data | .appendAdmitted data => data.length
  | .appendWaiting _ rest _ _ => rest.length
  | _ => 0

theorem ClientPoint.Woken.unpushed {p q : ClientPoint} (h : ClientPoint.Woken p q) :
    q.unpushed = p.unpushed := by
  cases h <;> rfl

@[simp] theorem Purpose.unpushed_next (purpose : Purpose) (flushed : Except LogError Nat) :
    (purpose.next flushed).unpushed = 0 := by
  cases purpose <;> cases flushed <;> simp only [Purpose.next] <;> try rfl
  split <;> rfl

/-- What the things of a list count, all together. -/
def total {α : Type} (count : α → Nat) : List α → Nat
  | [] => 0
  | a :: l => count a + total count l

/-- One thing of a list gives way to another, and the total changes by what the two count. -/
theorem total_set {α : Type} (count : α → Nat) (a' : α) : ∀ {l : List α} {i : Nat} {a : α},
    l[i]? = some a → total count (l.set i a') + count a = total count l + count a'
  | [], _, _, h => by cases h
  | b :: l, 0, a, h => by
    cases h
    rw [List.set_cons_zero, total, total]
    omega
  | b :: l, i + 1, a, h => by
    have ih := total_set count a' (show l[i]? = some a from h)
    rw [List.set_cons_succ, total, total]
    omega

theorem total_map {α β : Type} (count : β → Nat) (f : α → β) (l : List α) :
    total count (l.map f) = total (fun a => count (f a)) l := by
  induction l with
  | nil => rfl
  | cons a l ih => rw [List.map_cons, total, total, ih]

theorem total_eq_mul {α : Type} {count : α → Nat} {n : Nat} {l : List α} (h : ∀ a ∈ l, count a = n) :
    total count l = l.length * n := by
  induction l with
  | nil => exact (Nat.zero_mul n).symm
  | cons a l ih =>
    rw [total, h a List.mem_cons_self, ih fun b hb => h b (List.mem_cons_of_mem a hb),
      List.length_cons, Nat.succ_mul, Nat.add_comm]

/-- How many bytes clients have still to push. -/
def unpushed (points : List ClientPoint) : Nat := total ClientPoint.unpushed points

theorem unpushed_set {points : List ClientPoint} {t : Nat} {p : ClientPoint} (p' : ClientPoint)
    (h : points[t]? = some p) : unpushed (points.set t p') + p.unpushed = unpushed points + p'.unpushed :=
  total_set ClientPoint.unpushed p' h

theorem unpushed_woken {wake : ClientPoint → ClientPoint} (hw : ∀ p, ClientPoint.Woken p (wake p))
    (points : List ClientPoint) : unpushed (points.map wake) = unpushed points := by
  rw [unpushed, total_map]
  exact congrArg (total · points) (funext fun p => (hw p).unpushed)

namespace History

variable {δ : Type}

/-- How many bytes the calls that have been given bring. -/
def given (past : History δ) : Nat := (past.requests.map Request.payload).flatten.length

theorem given_submit (m m' : Machine δ) (t : Nat) (request : Request) (past : History δ) :
    given (⟨m, .submit t request, m'⟩ :: past) = past.given + request.payload.length := by
  simp [given, requests, Move.request?]

theorem requests_step (m m' : Machine δ) (actor : Actor) (past : History δ) :
    requests (⟨m, .step actor, m'⟩ :: past) = past.requests := List.append_nil _

theorem given_step (m m' : Machine δ) (actor : Actor) (past : History δ) :
    given (⟨m, .step actor, m'⟩ :: past) = past.given := by
  rw [given, requests_step, given]

/-- Steps give no calls. -/
theorem requests_of_onlySteps {more : History δ} (h : more.OnlySteps) : more.requests = [] := by
  induction more with
  | nil => rfl
  | cons now more ih =>
    obtain ⟨actor, hmove⟩ := h now List.mem_cons_self
    rw [requests, ih fun later hlater => h later (List.mem_cons_of_mem _ hlater), hmove]
    rfl

theorem mem_requests_of_lastCall {t begun : Nat} {request : Request} {past : History δ}
    (h : past.lastCall t = some (begun, request)) : request ∈ past.requests := by
  induction past with
  | nil => cases h
  | cons now past ih =>
    rw [lastCall] at h
    rw [requests]
    cases hmove : now.move with
    | submit u given =>
      rw [hmove] at h
      dsimp only at h
      split at h
      · cases h
        exact List.mem_append_right _ (List.mem_singleton.2 rfl)
      · exact List.mem_append_left _ (ih h)
    | step actor =>
      rw [hmove] at h
      exact List.mem_append_left _ (ih h)

/-- A call that is over has been given. -/
theorem mem_requests_of_mem_calls {c : Call} {past : History δ} (h : c ∈ past.calls) :
    c.request ∈ past.requests := by
  induction past with
  | nil => cases h
  | cons now past ih =>
    rw [calls] at h
    rcases List.mem_append.1 h with hbefore | hends
    · exact List.mem_append_left _ (ih hbefore)
    · have hending := Option.mem_toList.1 hends
      refine List.mem_append_left _ ?_
      unfold ending? at hending
      split at hending
      · split at hending
        · rename_i hlast
          cases hending
          exact mem_requests_of_lastCall hlast
        · cases hending
      · cases hending

theorem requests_append (more past : History δ) :
    requests (more ++ past) = past.requests ++ more.requests := by
  induction more with
  | nil => exact (List.append_nil _).symm
  | cons now more ih =>
    rw [List.cons_append, requests, ih, requests, List.append_assoc]

end History

namespace Machine

open LawfulDevice

variable {δ : Type} [Device δ] {m m' m₁ : Machine δ} {t : Nat} {p p' : ClientPoint}
  {past : History δ}

/-! ### What is pushed -/

/-- What a step pushes the client has no longer to push. -/
theorem ClientStep.unpushed_le (hp : m.clients[t]? = some p) (hs : ClientStep m t p p' m₁) :
    (m.pushes (.step (.client t))).length + p'.unpushed ≤ p.unpushed := by
  have hfed : ∀ {data rest : Bytes} {offset : Nat}, Feeds m p data rest offset →
      p.unpushed = rest.length := by
    intro data rest offset hf
    cases hf <;> rfl
  cases hs with
  | refuseAppend _ failed =>
    rw [pushes_eq_nil hp (.inr (by simp [failed]))]
    exact Nat.zero_le _
  | feedRefused _ feeds _ failed =>
    rw [pushes_eq_nil hp (.inr (by simp [failed]))]
    exact Nat.zero_le _
  | @feedNothing _ data offset _ feeds =>
    by_cases hsound : m.state.failure = none
    · rw [pushes_of_feeds hp feeds hsound, List.take_nil]
      exact Nat.zero_le _
    · rw [pushes_eq_nil hp (.inr hsound)]
      exact Nat.zero_le _
  | feedBlocked _ feeds _ sound full =>
    rw [pushes_of_feeds hp feeds sound, full, List.take_zero, hfed feeds]
    exact Nat.le_of_eq (Nat.zero_add _)
  | feedPart _ feeds sound _ short =>
    rw [pushes_of_feeds hp feeds sound, hfed feeds, List.length_take, ClientPoint.unpushed,
      List.length_drop]
    omega
  | feedAll _ feeds _ sound fits =>
    rw [pushes_of_feeds hp feeds sound, hfed feeds, List.length_take]
    exact Nat.min_le_right ..
  | refuseFlush | flushNothing | flushFails | flushDone =>
    rw [pushes_eq_nil hp (.inl rfl), Purpose.unpushed_next]
    exact Nat.zero_le _
  | admitAppend =>
    rw [pushes_eq_nil hp (.inl rfl)]
    exact Nat.le_of_eq (Nat.zero_add _)
  | _ =>
    rw [pushes_eq_nil hp (.inl rfl)]
    exact Nat.le_refl _

/-- No more is pushed than has been given. -/
theorem length_log_add_unpushed_le [LawfulDevice δ] {device : δ} {settings : Settings} {clients : Nat}
    {m₀ : Machine δ} (h₀ : open? device settings clients = .ok m₀) (h : Reaches m₀ past m) :
    past.log.length + unpushed m.clients ≤ past.given := by
  induction h with
  | start =>
    obtain ⟨ring, cache, -, -, rfl⟩ := open?_eq_ok h₀
    have hnone : ∀ n, unpushed (List.replicate n (.idle none)) = 0 := by
      intro n
      refine (total_eq_mul fun p hp => ?_).trans (Nat.mul_zero _)
      rw [List.eq_of_mem_replicate hp]
      rfl
    exact Nat.le_of_eq ((Nat.zero_add _).trans (hnone clients))
  | @move past m m' move _ next ih =>
    match move, next with
    | .submit t request, next =>
      obtain ⟨last, hp, -, hcase⟩ := submit?_cases next
      have hclients : m'.clients = m.clients.set t request.entry := by
        rcases hcase with ⟨-, rfl⟩ | ⟨-, -, rfl⟩ <;> rfl
      have hset := unpushed_set request.entry hp
      have hentry : request.entry.unpushed = request.payload.length := by cases request <;> rfl
      rw [History.log_submit, History.given_submit, hclients]
      rw [hentry, show (ClientPoint.idle last).unpushed = 0 from rfl, Nat.add_zero] at hset
      omega
    | .step .writer, next =>
      obtain ⟨wake, hwake, hclients⟩ := (writerStep?_cases next).clients
      rw [History.log_writer, History.given_step, hclients, unpushed_woken hwake]
      exact ih
    | .step (.client t), next =>
      obtain ⟨p, p', m₁, hp, hs, rfl⟩ := clientStep?_cases next
      have hset := unpushed_set p' hp
      have hle := hs.unpushed_le hp
      have hclients : (m₁.setClient t p').clients = m.clients.set t p' := by
        show m₁.clients.set t p' = _
        rw [hs.clients_eq]
      rw [History.log, List.length_append, History.given_step, hclients]
      show past.log.length + (m.pushes (.step (.client t))).length + _ ≤ _
      omega
  | faults d _ _ ih => exact ih

/-- A faultless device that can be addressed as far as the calls could bring the log fails no call. -/
theorem unfailing_of_given [LawfulDevice δ] {device : δ} {settings : Settings} {clients : Nat}
    {m₀ : Machine δ} (h₀ : open? device settings clients = .ok m₀) (h : Reaches m₀ past m)
    (hf : past.Faultless) (hr : Addressable δ (Device.blockSize device) past.given) :
    past.Unfailing := by
  refine unfailing_of_faultless h₀ h hf fun n hn => hr n (Nat.le_trans hn ?_)
  have := length_log_add_unpushed_le h₀ h
  omega

/-! ### What is counted -/

/-- The bytes of an append are counted when it is over, and nothing else is. -/
theorem ClientStep.appendedBytes_eq (hsound : Sound m) {request : Request}
    (hreq : p.request? = some request) (hs : ClientStep m t p p' m₁) :
    m₁.state.totals.appendedBytes = m.state.totals.appendedBytes +
      if p'.isIdle then request.payload.length else 0 := by
  have hquiet : ∀ purpose : Purpose, some purpose.request = some request →
      ∀ q : ClientPoint, (if q.isIdle then request.payload.length else 0) = 0 := by
    intro purpose hp q
    cases hp
    cases purpose <;> exact ite_self _
  cases hs with
  | refuseAppend _ failed | refuseFlush _ failed | flushFails _ failed | refuseRead _ failed =>
    exact absurd failed hsound.not_failed
  | feedRefused _ _ _ failed => exact absurd failed hsound.not_failed
  | feedNothing _ feeds | feedAll _ feeds =>
    obtain ⟨hrequest, -⟩ := request?_of_feeds feeds
    rw [hreq] at hrequest
    cases hrequest
    rfl
  | flushNothing | flushDone => rw [hquiet _ hreq]; rfl
  | readFails | readDone | joinDegraded | sync =>
    cases hreq
    rfl
  | _ => rfl

variable [LawfulDevice δ] {device : δ} {settings : Settings} {clients : Nat} {m₀ : Machine δ}

/-- Where nothing has failed, the bytes counted as appended are those of the calls that are over. -/
theorem appendedBytes_of_reaches (h₀ : open? device settings clients = .ok m₀)
    (h : Reaches m₀ past m) (hu : past.Unfailing) :
    m.state.totals.appendedBytes = (payloads past.calls).length := by
  induction h with
  | start =>
    obtain ⟨ring, cache, -, -, rfl⟩ := open?_eq_ok h₀
    rfl
  | @move past m m' move reached next ih =>
    obtain ⟨hbefore, hd⟩ := hu.cons
    have hsame : History.ending? ⟨m, move, m'⟩ past = none →
        payloads (History.calls (⟨m, move, m'⟩ :: past)) = payloads past.calls := by
      intro hnone
      rw [History.calls, hnone, Option.toList_none, List.append_nil]
    cases move with
    | submit t request =>
      rw [hsame rfl, (submit?_frame next).1]
      exact ih hbefore
    | step actor =>
      cases actor with
      | writer =>
        rw [hsame rfl, (writerStep?_cases next).totals_eq.1]
        exact ih hbefore
      | client t =>
        obtain ⟨p, p', m₁, hp, hs, rfl⟩ := clientStep?_cases next
        have hbooked := History.booked_of_reaches h₀ reached
        have hsound := (sound_of_reaches h₀ reached hbefore).1
        obtain ⟨begun, request, hreq, -, ⟨reply, rfl, hending⟩ | ⟨hgoes, hending⟩⟩ :=
          History.calls_clientStep hbooked hp hs
        · rw [History.calls, hending, Option.toList_some, payloads_append, List.length_append,
            ← ih hbefore]
          refine (hs.appendedBytes_eq hsound hreq).trans ?_
          rw [payloads_cons, List.length_append]
          rfl
        · rw [hsame hending, ← ih hbefore]
          have hidle : p'.isIdle = false := by cases p' <;> first | rfl | cases hgoes
          refine (hs.appendedBytes_eq hsound hreq).trans ?_
          rw [hidle]
          rfl
  | faults d _ _ ih => exact ih hu

/-- Where nothing has failed and nobody is under way, the calls that are over have brought the log, and all
    of it is counted. -/
theorem log_of_idle (h₀ : open? device settings clients = .ok m₀) (h : Reaches m₀ past m)
    (hu : past.Unfailing) (hidle : ∀ p ∈ m.clients, p.isIdle = true) :
    past.log = payloads past.calls ∧ m.state.totals.appendedBytes = past.log.length := by
  obtain ⟨flushed, log, -, hextends, htrace⟩ := ledger_of_reaches h₀ h
  have hlog : past.log = log := by
    refine hextends.settled fun t p hp => ?_
    have hi := hidle p (List.mem_of_getElem? hp)
    cases p <;> first | rfl | cases hi
  have hpayloads := (htrace.exact (sound_of_reaches h₀ h hu).2).log_eq
  refine ⟨hlog.trans hpayloads, ?_⟩
  rw [appendedBytes_of_reaches h₀ h hu, hlog, hpayloads]

end Machine

end BlockLog
