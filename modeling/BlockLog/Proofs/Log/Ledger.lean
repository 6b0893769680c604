import BlockLog.Proofs.Log.Calls

/-! A log is a byte string that grows at its end. The calls that are over, in the order in which they
    ended, answer as one after the other on such a string would: an append the end of the string, a
    read the bytes of its range. What an append under way has pushed comes behind that.

        calls over:   append     read     append     flush        append under way
        string:     ├────────┼──────────┼──────────────────────┤├─────── ─ ─ ─
                                                            log.length = its offset -/

namespace BlockLog

/-- The bytes that a call brings. -/
def Request.payload : Request → Bytes
  | .append data => data
  | _ => []

/-- What a call is answered when the string is `log`. -/
def Request.answer (log : Bytes) : Request → Reply
  | .append _ => .ok (.offset log.length)
  | .flush | .close => .ok .done
  | .read offset len =>
    if log.length < offset + len then .error (.readPastEnd offset len log.length)
    else .ok (.bytes (log.slice offset len))

/-- A call on the string `log` is answered as it should be and brings its bytes. -/
inductive Exact (log : Bytes) (request : Request) : Reply → Bytes → Prop
  | intro : Exact log request (request.answer log) (log ++ request.payload)

theorem Exact.eq {log log' : Bytes} {request : Request} {reply : Reply}
    (h : Exact log request reply log') :
    reply = request.answer log ∧ log' = log ++ request.payload := by
  cases h
  exact ⟨rfl, rfl⟩

/-- A call on the string `log` is answered as it should be and brings its bytes, or it fails and brings
    the first of them. A read past the end is no failure. -/
inductive Answers (log : Bytes) (request : Request) : Reply → Bytes → Prop
  | exact : Answers log request (request.answer log) (log ++ request.payload)
  | fails {e : LogError} {pushed : Bytes} (other : ∀ offset len size, e ≠ .readPastEnd offset len size)
    (first : pushed <+: request.payload) : Answers log request (.error e) (log ++ pushed)

namespace Answers

variable {log : Bytes}

theorem append {offset : Nat} (data : Bytes) (h : offset = log.length) :
    Answers log (.append data) (.ok (.offset offset)) (log ++ data) := by
  rw [h]
  exact .exact

/-- A call that brings nothing. -/
theorem quiet {request : Request} {reply : Reply} (hnone : request.payload = [])
    (h : request.answer log = reply) : Answers log request reply log := by
  have hexact : Answers log request (request.answer log) (log ++ request.payload) := .exact
  rwa [hnone, List.append_nil, h] at hexact

/-- A call that fails before it has brought anything. -/
theorem failed {request : Request} {e : LogError}
    (other : ∀ offset len size, e ≠ .readPastEnd offset len size) :
    Answers log request (.error e) log := by
  have hfails : Answers log request (.error e) (log ++ []) := .fails other List.nil_prefix
  rwa [List.append_nil] at hfails

end Answers

/-- Calls one after the other take the empty string to another. -/
inductive Trace (answers : Bytes → Request → Reply → Bytes → Prop) : List Call → Bytes → Prop
  | nil : Trace answers [] []
  | snoc {calls log log'} {c : Call} (before : Trace answers calls log)
    (last : answers log c.request c.reply log') : Trace answers (calls ++ [c]) log'

/-- The call that a move ends goes behind the calls that were over before. -/
theorem Trace.move {δ : Type} {answers : Bytes → Request → Reply → Bytes → Prop} {now : Moment δ}
    {past : History δ} {log log' : Bytes} (h : Trace answers past.calls log)
    (hends : ∀ c, History.ending? now past = some c → answers log c.request c.reply log')
    (hsame : History.ending? now past = none → log' = log) :
    Trace answers (History.calls (now :: past)) log' := by
  rw [History.calls]
  cases hending : History.ending? now past with
  | some c => exact .snoc h (hends c hending)
  | none =>
    rw [hsame hending]
    show Trace answers (past.calls ++ []) log
    rw [List.append_nil]
    exact h

/-- The client is in the middle of an append. -/
def ClientPoint.isAppendWaiting : ClientPoint → Bool
  | .appendWaiting .. => true
  | _ => false

namespace Machine

variable {δ : Type}

/-- Where the log stands to the string of the calls that are over: it goes on with what the append
    under way has pushed. -/
structure Extends (m : Machine δ) (a : Account) (log : Bytes) : Prop where
  ledger : log <+: a.log
  flushed : a.flushed ≤ log.length
  waiting : ∀ (t : Nat) (data rest : Bytes) (offset : Nat) (asleep : Bool),
    m.clients[t]? = some (.appendWaiting data rest offset asleep) → offset = log.length
  settled : (∀ (t : Nat) (p : ClientPoint), m.clients[t]? = some p → p.isAppendWaiting = false) →
    a.log = log

section

variable [Device δ] [LawfulDevice δ] {initial : Bytes} {m m' m₁ : Machine δ} {a a' : Account} {t : Nat}
  {p p' : ClientPoint} {log : Bytes}

/-- Where a client holds the append lock and is not in the middle of an append, nobody is. -/
theorem Extends.log_eq (he : Extends m a log) (h : Inv initial m a) (hp : m.clients[t]? = some p)
    (hheld : p.holdsAppend = true) (hnot : p.isAppendWaiting = false) : a.log = log := by
  refine he.settled fun u q hq => ?_
  by_contra hw
  have hheld' : q.holdsAppend = true := by
    cases q with
    | appendWaiting => rfl
    | _ => exact absurd rfl hw
  have hut := h.exclusive.append_unique hp hq hheld hheld'
  rw [hut, hp] at hq
  cases hq
  exact hw hnot

/-- A flush covers no more than the calls that are over have brought. -/
theorem Extends.flushed_le (he : Extends m a log) (h : Inv initial m a) {move : Move}
    (hacc : Accounts m move a a') : a'.flushed ≤ log.length := by
  rcases hacc.covers with hflushed | ⟨hflushed, u, q, hq, hheld, hnot⟩
  · rw [hflushed]
    exact he.flushed
  · rw [hflushed, he.log_eq h hq hheld (by cases q <;> first | rfl | cases hnot)]

/-- An append answers the end of the string, and its bytes come behind that. -/
theorem Extends.feeds (he : Extends m a log) (h : Inv initial m a) (hp : m.clients[t]? = some p)
    {data rest : Bytes} {offset : Nat} (hf : Feeds m p data rest offset) :
    offset = log.length ∧ a.log ++ rest = log ++ data := by
  obtain ⟨hheld, hdrain, -, hdata⟩ := h.feeds hp hf
  have hoffset : offset = log.length := by
    cases hf with
    | first sound =>
      rw [← he.log_eq h hp rfl rfl]
      exact h.consistent.buffers.endOffset_eq hdrain sound
    | again => exact he.waiting t _ _ _ _ hp
  refine ⟨hoffset, ?_⟩
  obtain ⟨pushed, hlog⟩ := he.ledger
  rw [← hdata, hoffset, ← hlog, List.drop_left, List.append_assoc]

/-- What came of an append that fails in the middle. -/
theorem Extends.failed (he : Extends m a log) (h : Inv initial m a) (hp : m.clients[t]? = some p)
    {data rest : Bytes} {offset : Nat} (hf : Feeds m p data rest offset) :
    ∃ pushed, pushed <+: data ∧ a.log = log ++ pushed := by
  obtain ⟨pushed, hlog⟩ := he.ledger
  obtain ⟨-, hdata⟩ := he.feeds h hp hf
  refine ⟨pushed, ⟨rest, ?_⟩, hlog.symm⟩
  rw [← hlog, List.append_assoc] at hdata
  exact List.append_cancel_left hdata

omit [Device δ] [LawfulDevice δ] in
theorem request?_of_feeds {data rest : Bytes} {offset : Nat} (hf : Feeds m p data rest offset) :
    p.request? = some (.append data) ∧ p.isAppending = true := by
  cases hf <;> exact ⟨rfl, rfl⟩

/-- An append whose last bytes have been pushed ends as it should. -/
theorem Extends.fed (he : Extends m a log) (h : Inv initial m a) (hp : m.clients[t]? = some p)
    {data rest : Bytes} {offset : Nat} (hf : Feeds m p data rest offset) {request : Request}
    (hreq : p.request? = some request) (hpush : m.pushes (.step (.client t)) = rest) :
    Answers log request (.ok (.offset offset)) (a.log ++ m.pushes (.step (.client t))) := by
  obtain ⟨hrequest, -⟩ := request?_of_feeds hf
  rw [hreq] at hrequest
  cases hrequest
  obtain ⟨hoffset, hlog⟩ := he.feeds h hp hf
  rw [hpush, hlog]
  exact .append data hoffset

/-- A flush that covers the whole log answers for what it is a part of. -/
theorem answers_next_ok {purpose : Purpose} {size : Nat} {reply : Reply} (hsize : size = log.length)
    (hnext : purpose.next (.ok size) = .idle (some reply)) :
    Answers log purpose.request reply log := by
  cases purpose with
  | flush =>
    cases hnext
    exact .quiet rfl rfl
  | read offset len =>
    unfold Purpose.next at hnext
    dsimp only at hnext
    split at hnext
    · rename_i hpast
      cases hnext
      rw [hsize] at hpast ⊢
      exact .quiet rfl (if_pos hpast)
    · cases hnext
  | close => cases hnext

theorem answers_next_error {purpose : Purpose} {reason : Degradation} {reply : Reply}
    (hnext : purpose.next (.error (.degraded reason)) = .idle (some reply)) :
    Answers log purpose.request reply log := by
  cases purpose with
  | flush | read =>
    cases hnext
    exact .failed (by simp)
  | close => cases hnext

/-- A close ends well or fails, but not as a read would. -/
theorem answers_close {flushed joined : Except LogError Unit} (synced : Except DeviceError Unit)
    (hflushed : ∀ e, flushed = .error e → ∃ reason, e = .degraded reason)
    (hjoined : ∀ e, joined = .error e → e = .writerPanicked) :
    Answers log .close (closeReply flushed joined (synced.mapError LogError.device)) log := by
  cases flushed with
  | error e =>
    obtain ⟨reason, rfl⟩ := hflushed e rfl
    exact .failed (by simp)
  | ok =>
    cases joined with
    | error e =>
      obtain rfl := hjoined e rfl
      exact .failed (by simp)
    | ok =>
      cases synced with
      | error e => exact .failed (by simp)
      | ok => exact .quiet rfl rfl

/-- A step that ends an append answers it, with what it pushes. -/
theorem ClientStep.answers_append (h : Inv initial m a) (he : Extends m a log)
    (hp : m.clients[t]? = some p) (happend : p.isAppending = true) (hs : ClientStep m t p p' m₁)
    {request : Request} {reply : Reply} (hreq : p.request? = some request)
    (hp' : p' = .idle (some reply)) :
    Answers log request reply (a.log ++ m.pushes (.step (.client t))) := by
  cases hs with
  | refuseAppend _ failed =>
    cases hreq
    cases hp'
    rw [pushes_eq_nil hp (.inr (by simp [failed])), List.append_nil, he.log_eq h hp rfl rfl]
    exact .failed (by simp)
  | feedNothing _ feeds =>
    cases hp'
    exact he.fed h hp feeds hreq (pushes_of_feeds_eq_nil hp feeds (.inl rfl))
  | feedRefused _ feeds _ failed =>
    cases hp'
    obtain ⟨hrequest, -⟩ := request?_of_feeds feeds
    rw [hreq] at hrequest
    cases hrequest
    obtain ⟨pushed, hfirst, hlog⟩ := he.failed h hp feeds
    rw [pushes_eq_nil hp (.inr (by simp [failed])), List.append_nil, hlog]
    exact .fails (by simp) hfirst
  | feedAll _ feeds _ sound fits =>
    cases hp'
    refine he.fed h hp feeds hreq ?_
    rw [pushes_of_feeds hp feeds sound, List.take_of_length_le fits]
  | feedBlocked | feedPart => cases hp'
  | _ => cases happend

/-- A step that ends any other call answers it. -/
theorem ClientStep.answers_quiet (h : Inv initial m a) (he : Extends m a log)
    (hp : m.clients[t]? = some p) (happend : p.isAppending = false) (hs : ClientStep m t p p' m₁)
    {request : Request} {reply : Reply} (hreq : p.request? = some request)
    (hp' : p' = .idle (some reply)) : Answers log request reply log := by
  have hserves := h.serves t p hp
  cases hs with
  | refuseFlush | flushFails =>
    cases hreq
    exact answers_next_error hp'
  | flushNothing _ sound =>
    cases hreq
    have hend := h.consistent.buffers.endOffset_eq (h.draining_eq_false hp rfl rfl) sound
    rw [he.log_eq h hp rfl rfl] at hend
    exact answers_next_ok hend hp'
  | flushDone _ _ empty =>
    cases hreq
    have hend := h.consistent.buffers.endOffset_settle empty
    rw [hserves.1, he.log_eq h hp rfl rfl] at hend
    exact answers_next_ok hend hp'
  | refuseRead | readFails =>
    cases hreq
    cases hp'
    exact .failed (by simp)
  | @readDone offset len got complete =>
    cases hreq
    cases hp'
    obtain ⟨⟨hrange, -⟩, hle, hgot⟩ := hserves
    have hlen : got.length = len := Nat.le_antisymm hle complete
    have hinside := Nat.le_trans hrange he.flushed
    obtain ⟨pushed, hlog⟩ := he.ledger
    rw [hlen, ← hlog, Bytes.slice_append_of_le hinside] at hgot
    refine .quiet rfl ?_
    rw [Request.answer, if_neg (Nat.not_lt.2 hinside), hgot]
  | @joinDegraded flushed panicked =>
    cases hreq
    cases hp'
    refine answers_close (.ok ()) (fun e herr => (hserves.failed e herr).2) fun e herr => ?_
    cases panicked <;> cases herr
    rfl
  | sync =>
    cases hreq
    cases hp'
    refine answers_close _ (fun e herr => (hserves.1.failed e herr).2) fun e herr => ?_
    rw [hserves.2.1] at herr
    cases herr
  | feedNothing _ feeds | feedRefused _ feeds | feedAll _ feeds => cases feeds <;> cases happend
  | refuseAppend => cases happend
  | _ => cases hp'

/-- A step that ends a call answers it. -/
theorem ClientStep.answers (h : Inv initial m a) (he : Extends m a log) (hp : m.clients[t]? = some p)
    (hs : ClientStep m t p p' m₁) {request : Request} {reply : Reply}
    (hreq : p.request? = some request) (hp' : p' = .idle (some reply)) :
    ∃ log', Answers log request reply log' ∧
      (p.isAppending = true → a.log ++ m.pushes (.step (.client t)) = log') ∧
      (p.isAppending = false → log' = log) := by
  rcases Bool.eq_false_or_eq_true p.isAppending with happend | hquiet
  · refine ⟨_, hs.answers_append h he hp happend hreq hp', fun _ => rfl, fun hquiet => ?_⟩
    rw [happend] at hquiet
    cases hquiet
  · refine ⟨log, hs.answers_quiet h he hp hquiet hreq hp', fun happend => ?_, fun _ => rfl⟩
    rw [hquiet] at happend
    cases happend

omit [LawfulDevice δ] in
/-- From the middle of an append a step leads to its end or back to the middle. -/
theorem ClientStep.isAppending (hs : ClientStep m t p p' m₁) (ha : p.isAppending = true) :
    (∃ reply, p' = .idle (some reply)) ∨ p'.isAppendWaiting = true := by
  cases hs with
  | refuseAppend | feedNothing | feedRefused | feedAll => exact .inl ⟨_, rfl⟩
  | feedBlocked | feedPart => exact .inr rfl
  | _ => cases ha

/-- In the middle of an append it is known what will be answered. -/
theorem ClientStep.waiting (h : Inv initial m a) (he : Extends m a log) (hp : m.clients[t]? = some p)
    (hs : ClientStep m t p p' m₁) {data rest : Bytes} {offset : Nat} {asleep : Bool}
    (hp' : p' = .appendWaiting data rest offset asleep) :
    offset = log.length ∧ p.isAppending = true := by
  have hnext : ∀ (purpose : Purpose) (flushed : Except LogError Nat),
      purpose.next flushed ≠ .appendWaiting data rest offset asleep := by
    intro purpose flushed hn
    have hheld := Purpose.holdsAppend_next purpose flushed
    rw [hn] at hheld
    cases hheld
  cases hs with
  | feedBlocked _ feeds | feedPart _ feeds =>
    cases hp'
    exact ⟨(he.feeds h hp feeds).1, (request?_of_feeds feeds).2⟩
  | refuseFlush | flushNothing | flushFails | flushDone => exact absurd hp' (hnext _ _)
  | _ => cases hp'

theorem Extends.clientStep (he : Extends m a log) (h : Inv initial m a) (hp : m.clients[t]? = some p)
    (hs : ClientStep m t p p' m₁) (hacc : Accounts m (.step (.client t)) a a') {log' : Bytes}
    (hends : p'.isIdle = true → p.isAppending = true → a.log ++ m.pushes (.step (.client t)) = log')
    (hsame : p'.isIdle = false ∨ p.isAppending = false → log' = log) :
    Extends (m₁.setClient t p') a' log' := by
  have hplaced := hs.placed hp
  have hgrows : log <+: log' ∧ log' <+: a'.log := by
    rw [hacc.log]
    rcases Bool.eq_false_or_eq_true p.isAppending with ha | ha
    · rcases hs.isAppending ha with ⟨reply, rfl⟩ | hw
      · rw [← hends rfl ha]
        exact ⟨he.ledger.trans (List.prefix_append ..), List.prefix_refl _⟩
      · rw [hsame (.inl (by cases p' <;> first | rfl | cases hw))]
        exact ⟨List.prefix_refl _, he.ledger.trans (List.prefix_append ..)⟩
    · rw [hsame (.inr ha)]
      exact ⟨List.prefix_refl _, he.ledger.trans (List.prefix_append ..)⟩
  exact
    { ledger := hgrows.2
      flushed := Nat.le_trans (he.flushed_le h hacc) hgrows.1.length_le
      waiting := by
        intro u data rest offset asleep hq
        rcases hplaced.cases hq with ⟨-, hp'⟩ | ⟨hut, hq⟩
        · obtain ⟨hoffset, -⟩ := hs.waiting h he hp hp'.symm
          rw [hsame (.inl (by rw [← hp']; rfl))]
          exact hoffset
        · have hnot : p.isAppending = false := by
            by_contra ha
            have hheld : p.holdsAppend = true := by
              cases p <;> first | rfl | exact absurd rfl ha
            exact hut (h.exclusive.append_unique hp hq hheld rfl)
          rw [hsame (.inr hnot)]
          exact he.waiting u data rest offset asleep hq
      settled := by
        intro hnone
        rw [hacc.log]
        rcases Bool.eq_false_or_eq_true p.isAppending with ha | ha
        · rcases hs.isAppending ha with ⟨reply, rfl⟩ | hw
          · exact hends rfl ha
          · rw [hnone t p' hplaced.self] at hw
            cases hw
        · rw [hsame (.inr ha), pushes_eq_nil hp (.inl ha), List.append_nil]
          refine he.settled fun u q hq => ?_
          by_cases hut : u = t
          · subst hut
            rw [hp] at hq
            cases hq
            cases p <;> first | rfl | cases ha
          · exact hnone u q ((hplaced.other hut).trans hq) }

omit [Device δ] [LawfulDevice δ] in
/-- Where nobody but sleepers are moved, and the log and what is covered stay, nothing changes. -/
theorem Extends.wake (he : Extends m a log) {wake : ClientPoint → ClientPoint}
    (hw : ∀ p, ClientPoint.Woken p (wake p)) (hclients : m'.clients = m.clients.map wake)
    (hlog : a'.log = a.log) (hflushed : a'.flushed ≤ log.length) : Extends m' a' log where
  ledger := by rw [hlog]; exact he.ledger
  flushed := hflushed
  waiting t data rest offset asleep hq := by
    rw [hclients, List.getElem?_map] at hq
    obtain ⟨p, hp, hpq⟩ := Option.map_eq_some_iff.1 hq
    have hwoken := hw p
    rw [hpq] at hwoken
    cases hwoken with
    | same => exact he.waiting t _ _ _ _ hp
    | append => exact he.waiting t _ _ _ _ hp
  settled hnone := by
    rw [hlog]
    refine he.settled fun t p hp => ?_
    have hq := hnone t (wake p) (by rw [hclients, List.getElem?_map, hp]; rfl)
    have hwoken := hw p
    cases p with
    | appendWaiting =>
      generalize wake _ = q at hq hwoken
      cases hwoken <;> cases hq
    | _ => rfl

end

/-! ### Runs -/

section

variable [Device δ] [LawfulDevice δ] {m m' : Machine δ} {initial : Bytes} {a : Account} {log : Bytes}
  {past : History δ}

/-- A move takes the string of the calls that are over to the next: it answers the call that it ends,
    if it ends one. -/
theorem Extends.move (he : Extends m a log) (h : Inv initial m a) (hb : History.Booked past m)
    {move : Move} (hm : m.move? move = some m') :
    ∃ a' log', Accounts m move a a' ∧ Inv initial m' a' ∧ Extends m' a' log' ∧
      (∀ c, History.ending? ⟨m, move, m'⟩ past = some c → Answers log c.request c.reply log') ∧
      (History.ending? ⟨m, move, m'⟩ past = none → log' = log) := by
  match move, hm with
  | .submit t request, hm =>
    obtain ⟨hacc, hinv⟩ := h.submit hm
    obtain ⟨last, hp, -⟩ := submit?_cases hm
    have hplaced := submit?_placed hm
    have hentry : request.entry.isAppendWaiting = false := by
      cases request <;> rfl
    refine ⟨a, log, hacc, hinv, ⟨he.ledger, he.flushed, fun u data rest offset asleep hq => ?_,
      fun hnone => ?_⟩, fun c hc => (by cases hc), fun _ => rfl⟩
    · rcases hplaced.cases hq with ⟨-, hq⟩ | ⟨-, hq⟩
      · rw [← hq] at hentry
        cases hentry
      · exact he.waiting u _ _ _ _ hq
    · refine he.settled fun u q hq => ?_
      by_cases hut : u = t
      · rw [hut, hp] at hq
        cases hq
        rfl
      · exact hnone u q ((hplaced.other hut).trans hq)
  | .step .writer, hm =>
    have hs := writerStep?_cases hm
    obtain ⟨a', hacc, hinv⟩ := h.writerStep hs
    obtain ⟨wake, hwake, hclients⟩ := hs.clients
    exact ⟨a', log, hacc, hinv, he.wake hwake hclients (hacc.log.trans (List.append_nil _))
      (he.flushed_le h hacc), fun c hc => (by cases hc), fun _ => rfl⟩
  | .step (.client t), hm =>
    obtain ⟨p, p', m₁, hp, hs, rfl⟩ := clientStep?_cases hm
    obtain ⟨a', hacc, hinv⟩ := h.clientStep hp hs
    obtain ⟨begun, request, hreq, -, ⟨reply, rfl, hending⟩ | ⟨hsame, hending⟩⟩ :=
      History.calls_clientStep hb hp hs
    · obtain ⟨log', hanswer, hpush, hquiet⟩ := hs.answers h he hp hreq rfl
      refine ⟨a', log', hacc, hinv, he.clientStep h hp hs hacc (fun _ => hpush)
        (fun hor => hquiet (hor.resolve_left (by simp [ClientPoint.isIdle]))), ?_, ?_⟩
      · intro c hc
        rw [hending] at hc
        cases hc
        exact hanswer
      · intro hnone
        rw [hending] at hnone
        cases hnone
    · have hidle : p'.isIdle = false := by
        cases p' <;> first | rfl | cases hsame
      refine ⟨a', log, hacc, hinv, he.clientStep h hp hs hacc (fun hi => ?_) fun _ => rfl, ?_,
        fun _ => rfl⟩
      · rw [hidle] at hi
        cases hi
      · intro c hc
        rw [hending] at hc
        cases hc

omit [LawfulDevice δ] in
theorem extends_start {device : δ} {settings : Settings} {clients : Nat} {m₀ : Machine δ}
    (h₀ : open? device settings clients = .ok m₀) : Extends m₀ ⟨[], 0, 0⟩ [] := by
  obtain ⟨ring, cache, -, -, rfl⟩ := open?_eq_ok h₀
  refine ⟨List.prefix_refl _, Nat.le_refl _, fun t data rest offset asleep hq => ?_, fun _ => rfl⟩
  cases List.eq_of_mem_replicate (List.mem_of_getElem? hq)

/-- At every moment of a run the calls that are over answer as on a string, and the log is that string
    with what the append under way has pushed. -/
theorem ledger_of_reaches {device : δ} {settings : Settings} {clients : Nat} {m₀ : Machine δ}
    (h₀ : open? device settings clients = .ok m₀) (h : Reaches m₀ past m) :
    ∃ flushed log, Inv (LawfulDevice.contents device) m ⟨past.log, past.durable, flushed⟩ ∧
      Extends m ⟨past.log, past.durable, flushed⟩ log ∧ Trace Answers past.calls log := by
  induction h with
  | start => exact ⟨0, [], inv_start h₀, extends_start h₀, .nil⟩
  | @move past m m' move reached next ih =>
    obtain ⟨flushed, log, hinv, he, htrace⟩ := ih
    obtain ⟨⟨log₁, durable₁, flushed₁⟩, log', ⟨rfl, rfl, -, -⟩, hinv', he', hends, hsame⟩ :=
      he.move hinv (History.booked_of_reaches h₀ reached) next
    exact ⟨flushed₁, log', hinv', he', htrace.move hends hsame⟩
  | faults d _ same ih =>
    obtain ⟨flushed, log, hinv, he, htrace⟩ := ih
    exact ⟨flushed, log, hinv.faults same, ⟨he.ledger, he.flushed, he.waiting, he.settled⟩, htrace⟩

end

end Machine

end BlockLog
