import BlockLog.Proofs.Log.Preservation

/-! The calls of a run. A client that is under way somewhere is under way with the last call it was
    given; a call is over with the step that takes its client back to idle. So the calls that are over
    stand in the order in which they ended, and those of one client one behind the other.

        client t:   ├──── call ────┤     ├─────── call ───────┤
                    begun      ended     begun            ended      in moves of the run -/

namespace BlockLog

/-- What a flush was asked for as a part of. -/
def Purpose.request : Purpose → Request
  | .flush => .flush
  | .read offset len => .read offset len
  | .close => .close

/-- The call that a client at this point is under way with. -/
def ClientPoint.request? : ClientPoint → Option Request
  | .idle _ => none
  | .appendCalled data | .appendAdmitted data | .appendWaiting data .. => some (.append data)
  | .flushCalled purpose | .flushAdmitted purpose | .flushWaiting purpose .. => some purpose.request
  | .readCalled offset len | .reading offset len _ => some (.read offset len)
  | .stopping _ | .stopped _ | .joining _ | .syncing _ _ => some .close

/-- After its flush a call has ended or goes on as the call it was. -/
theorem Purpose.next_cases (purpose : Purpose) (flushed : Except LogError Nat) :
    (∃ reply, purpose.next flushed = .idle (some reply)) ∨
      (purpose.next flushed).request? = some purpose.request := by
  cases purpose with
  | flush => cases flushed <;> exact .inl ⟨_, rfl⟩
  | read offset len =>
    cases flushed with
    | error e => exact .inl ⟨_, rfl⟩
    | ok size =>
      unfold Purpose.next
      dsimp only
      split
      · exact .inl ⟨_, rfl⟩
      · exact .inr rfl
  | close => cases flushed <;> exact .inr rfl

theorem ClientPoint.Woken.request? {p q : ClientPoint} (h : ClientPoint.Woken p q) :
    q.request? = p.request? := by
  cases h <;> rfl

theorem ClientPoint.isClosing_of_request? {p : ClientPoint} (h : p.request? = some .close) :
    p.isClosing = true := by
  have hpurpose : ∀ purpose : Purpose, some purpose.request = some .close → purpose = .close := by
    intro purpose hp
    cases purpose <;> cases hp
    rfl
  cases p with
  | flushCalled purpose | flushAdmitted purpose | flushWaiting purpose =>
    rw [hpurpose purpose h]
    rfl
  | stopping | stopped | joining | syncing => rfl
  | _ => cases h

theorem Request.request?_entry (request : Request) : request.entry.request? = some request := by
  cases request <;> rfl

namespace Machine

variable {δ : Type} [Device δ] {m m' m₁ : Machine δ} {t : Nat} {p p' : ClientPoint}

/-- A step of a client ends its call or goes on with it. -/
theorem ClientStep.request? (h : ClientStep m t p p' m₁) :
    (∃ reply, p' = .idle (some reply)) ∨ p'.request? = p.request? := by
  cases h with
  | feedNothing | feedRefused | feedAll => exact .inl ⟨_, rfl⟩
  | feedBlocked _ feeds => cases feeds <;> exact .inr rfl
  | feedPart _ feeds => cases feeds <;> exact .inr rfl
  | refuseFlush => exact Purpose.next_cases ..
  | flushNothing => exact Purpose.next_cases ..
  | flushFails => exact Purpose.next_cases ..
  | flushDone => exact Purpose.next_cases ..
  | refuseAppend | refuseRead | readFails | readDone | joinDegraded | sync => exact .inl ⟨_, rfl⟩
  | _ => exact .inr rfl

theorem ClientStep.request?_ne_none (h : ClientStep m t p p' m₁) :
    ∃ request, p.request? = some request := by
  have hidle := h.not_idle
  cases p with
  | idle => cases hidle
  | _ => exact ⟨_, rfl⟩

omit [Device δ] in
/-- A client that has been replied to is idle. -/
theorem idle_of_reply? {reply : Reply} (h : m.reply? t = some reply) :
    m.clients[t]? = some (.idle (some reply)) := by
  obtain ⟨p, hp, hr⟩ := Option.bind_eq_some_iff.1 h
  cases p with
  | idle last => rw [hp, show last = some reply from hr]
  | _ => cases hr

end Machine

namespace History

open Machine

variable {δ : Type} [Device δ]

omit [Device δ] in
/-- The call that ends with a step of its client. -/
theorem ending?_eq_some {m m' : Machine δ} {past : History δ} {t begun : Nat} {request : Request}
    {reply : Reply} (hp : m'.clients[t]? = some (.idle (some reply)))
    (hl : lastCall t past = some (begun, request)) :
    ending? ⟨m, .step (.client t), m'⟩ past =
      some { client := t, request, begun, ended := past.length, reply } := by
  simp [ending?, Machine.reply?, ClientPoint.reply?, hp, hl]

omit [Device δ] in
theorem ending?_eq_none {m m' : Machine δ} {past : History δ} {t : Nat} {p : ClientPoint}
    (hp : m'.clients[t]? = some p) (hidle : p.request? ≠ none) :
    ending? ⟨m, .step (.client t), m'⟩ past = none := by
  have hreply : m'.reply? t = none := by
    rw [Machine.reply?, hp]
    cases p with
    | idle => exact absurd rfl hidle
    | _ => rfl
  simp [ending?, hreply]

/-- What is known about the calls of a run. -/
structure Booked (past : History δ) (m : Machine δ) : Prop where
  underway : ∀ (t : Nat) (p : ClientPoint) (request : Request), m.clients[t]? = some p →
    p.request? = some request → ∃ begun, past.lastCall t = some (begun, request) ∧
      begun < past.length ∧ ∀ c ∈ past.calls, c.client = t → c.ended < begun
  finished : ∀ c ∈ past.calls, c.begun < c.ended ∧ c.ended < past.length
  given : ∀ c ∈ past.calls, c.client < m.clients.length
  ordered : past.calls.Pairwise fun a b =>
    a.ended < b.ended ∧ (a.client = b.client → a.ended < b.begun)

/-- A step of a client, with the call that it ends, if it ends one. -/
theorem calls_clientStep {m m₁ : Machine δ} {past : History δ} {t : Nat} {p p' : ClientPoint}
    (hb : Booked past m) (hp : m.clients[t]? = some p) (hs : ClientStep m t p p' m₁) :
    ∃ begun request, p.request? = some request ∧ lastCall t past = some (begun, request) ∧
      ((∃ reply, p' = .idle (some reply) ∧
        ending? ⟨m, .step (.client t), m₁.setClient t p'⟩ past =
          some { client := t, request, begun, ended := past.length, reply }) ∨
      (p'.request? = some request ∧
        ending? ⟨m, .step (.client t), m₁.setClient t p'⟩ past = none)) := by
  obtain ⟨request, hreq⟩ := hs.request?_ne_none
  obtain ⟨begun, hlast, -, -⟩ := hb.underway t p request hp hreq
  have hself : (m₁.setClient t p').clients[t]? = some p' := by
    exact (hs.placed hp).self
  refine ⟨begun, request, hreq, hlast, ?_⟩
  rcases hs.request? with ⟨reply, rfl⟩ | hsame
  · exact .inl ⟨reply, rfl, ending?_eq_some hself hlast⟩
  · rw [hreq] at hsame
    exact .inr ⟨hsame, ending?_eq_none hself (by simp [hsame])⟩

/-- The step that ends a call. -/
theorem ending?_cases {now : Moment δ} {past : History δ} {call : Call} (hb : Booked past now.before)
    (hm : now.before.move? now.move = some now.after) (he : ending? now past = some call) :
    ∃ p p' m₁, now.move = .step (.client call.client) ∧
      now.before.clients[call.client]? = some p ∧
      ClientStep now.before call.client p p' m₁ ∧ now.after = m₁.setClient call.client p' ∧
      p.request? = some call.request ∧ p' = .idle (some call.reply) ∧
      lastCall call.client past = some (call.begun, call.request) ∧ call.ended = past.length := by
  obtain ⟨m, move, m'⟩ := now
  match move, hm with
  | .submit t request, _ => cases he
  | .step .writer, _ => cases he
  | .step (.client t), hm =>
    obtain ⟨p, p', m₁, hp, hs, rfl⟩ := clientStep?_cases hm
    obtain ⟨begun, request, hreq, hlast, ⟨reply, hp', hend⟩ | ⟨-, hend⟩⟩ :=
      calls_clientStep hb hp hs
    · rw [hend] at he
      cases he
      exact ⟨p, p', m₁, rfl, hp, hs, rfl, hreq, hp', hlast, rfl⟩
    · rw [hend] at he
      cases he

omit [Device δ] in
/-- The client of the call that a move ends is idle after it, with the reply. -/
theorem idle_of_ending? {now : Moment δ} {past : History δ} {call : Call}
    (he : ending? now past = some call) :
    now.after.clients[call.client]? = some (.idle (some call.reply)) := by
  obtain ⟨m, move, m'⟩ := now
  match move with
  | .submit t request => cases he
  | .step .writer => cases he
  | .step (.client t) =>
    cases hreply : m'.reply? t with
    | none => simp [ending?, hreply] at he
    | some reply =>
      cases hlast : lastCall t past with
      | none => simp [ending?, hreply, hlast] at he
      | some given =>
        simp only [ending?, hreply, hlast, Option.some.injEq] at he
        subst he
        obtain ⟨p, hp, hr⟩ := Option.bind_eq_some_iff.1 hreply
        cases p with
        | idle last => rw [hp, show last = some reply from hr]
        | _ => cases hr

/-- A client that is under way after a move has just been given its call, or it was under way with it
    before the move. -/
theorem underway_cases {m m' : Machine δ} {move : Move} {t : Nat} {p : ClientPoint} {request : Request}
    (hm : m.move? move = some m') (hp : m'.clients[t]? = some p) (hreq : p.request? = some request) :
    ((∀ past, lastCall t (⟨m, move, m'⟩ :: past) = some (past.length, request)) ∧
      move = .submit t request ∧ ∃ last, m.clients[t]? = some (.idle last)) ∨
    ((∀ past, lastCall t (⟨m, move, m'⟩ :: past) = lastCall t past) ∧
      ∃ q, m.clients[t]? = some q ∧ q.request? = some request) := by
  match move, hm with
  | .submit u request', hm =>
    obtain ⟨last, hu, -⟩ := submit?_cases hm
    rcases (submit?_placed hm).cases hp with ⟨rfl, rfl⟩ | ⟨hut, hq⟩
    · rw [Request.request?_entry] at hreq
      cases hreq
      exact .inl ⟨fun past => if_pos rfl, rfl, last, hu⟩
    · exact .inr ⟨fun past => if_neg (Ne.symm hut), p, hq, hreq⟩
  | .step .writer, hm =>
    obtain ⟨q, hq, hwoken⟩ := (writerStep?_cases hm).woken_from hp
    rw [hwoken.request?] at hreq
    exact .inr ⟨fun past => rfl, q, hq, hreq⟩
  | .step (.client u), hm =>
    obtain ⟨q, q', m₁, hq, hs, rfl⟩ := clientStep?_cases hm
    refine .inr ⟨fun past => rfl, ?_⟩
    rcases (hs.placed hq).cases hp with ⟨rfl, rfl⟩ | ⟨-, hp⟩
    · rcases hs.request? with ⟨reply, rfl⟩ | hsame
      · cases hreq
      · exact ⟨q, hq, hsame ▸ hreq⟩
    · exact ⟨p, hp, hreq⟩

theorem Booked.move {m m' : Machine δ} {past : History δ} (h : Booked past m) {move : Move}
    (hm : m.move? move = some m') : Booked (⟨m, move, m'⟩ :: past) m' := by
  -- a call that ends with this move was the one its client was under way with
  have hends : ∀ c, ending? ⟨m, move, m'⟩ past = some c → c.ended = past.length ∧
      c.begun < past.length ∧ ∀ a ∈ past.calls, a.client = c.client → a.ended < c.begun := by
    intro c hc
    obtain ⟨p, p', m₁, -, hp, -, -, hreq, -, hlast, hended⟩ := ending?_cases h hm hc
    obtain ⟨begun, hlast', hbegun, hbefore⟩ := h.underway _ p _ hp hreq
    rw [hlast] at hlast'
    cases hlast'
    exact ⟨hended, hbegun, hbefore⟩
  have hcalls : ∀ c ∈ calls (⟨m, move, m'⟩ :: past), c ∈ past.calls ∨
      ending? ⟨m, move, m'⟩ past = some c := by
    intro c hc
    rwa [calls, List.mem_append, Option.mem_toList] at hc
  refine ⟨fun t p request hp hreq => ?_, fun c hc => ?_, fun c hc => ?_, ?_⟩
  · rcases underway_cases hm hp hreq with ⟨hlast, rfl, -⟩ | ⟨hlast, q, hq, hreq'⟩
    · refine ⟨past.length, hlast past, Nat.lt_succ_self _, fun c hc _ => ?_⟩
      rcases hcalls c hc with hc | hc
      · exact (h.finished c hc).2
      · cases hc
    · obtain ⟨begun, hl, hbegun, hbefore⟩ := h.underway t q request hq hreq'
      refine ⟨begun, (hlast past).trans hl, Nat.lt_succ_of_lt hbegun, fun c hc hct => ?_⟩
      rcases hcalls c hc with hc | hc
      · exact hbefore c hc hct
      · have hidle := idle_of_ending? hc
        rw [hct, hp] at hidle
        cases hidle
        cases hreq
  · rcases hcalls c hc with hc | hc
    · exact ⟨(h.finished c hc).1, Nat.lt_succ_of_lt (h.finished c hc).2⟩
    · obtain ⟨hended, hbegun, -⟩ := hends c hc
      rw [hended]
      exact ⟨hbegun, Nat.lt_succ_self _⟩
  · rcases hcalls c hc with hc | hc
    · rw [length_clients hm]
      exact h.given c hc
    · exact (List.getElem?_eq_some_iff.1 (idle_of_ending? hc)).1
  · rw [calls, List.pairwise_append]
    refine ⟨h.ordered, ?_, fun a ha c hc => ?_⟩
    · cases ending? ⟨m, move, m'⟩ past with
      | none => exact .nil
      | some c => exact List.pairwise_singleton _ _
    · obtain ⟨hended, -, hbefore⟩ := hends c (Option.mem_toList.1 hc)
      rw [hended]
      exact ⟨(h.finished a ha).2, hbefore a ha⟩

theorem booked_of_reaches [LawfulDevice δ] {device : δ} {settings : Settings} {clients : Nat}
    {m₀ m : Machine δ} {past : History δ} (h₀ : open? device settings clients = .ok m₀)
    (h : Reaches m₀ past m) : Booked past m := by
  induction h with
  | start =>
    obtain ⟨ring, cache, -, -, rfl⟩ := open?_eq_ok h₀
    refine ⟨fun t p request hp hr => ?_, fun c hc => (by cases hc), fun c hc => (by cases hc), .nil⟩
    rw [List.eq_of_mem_replicate (List.mem_of_getElem? hp)] at hr
    cases hr
  | move move _ next ih => exact ih.move next
  | faults d _ same ih => exact ⟨ih.underway, ih.finished, ih.given, ih.ordered⟩

end History

end BlockLog
