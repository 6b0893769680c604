import BlockLog.Proofs.Log.Handle
import BlockLog.Proofs.Workload.Order

/-! Appenders at work, turn by turn. An appender and its client go together: it has seen the calls of the
    client that are over, all but one whose reply it has still to collect. So nothing that it was given
    to append is lost on the way, whatever the turns are.

        records:   ├── written ──┤ current ├── pending ──┤
        client:    ├──── over ───┤  call   │
                     seen by the appender   ▲ not given yet -/

namespace BlockLog

/-- The record that an append has left. -/
def Call.written (c : Call) : Written where
  offset :=
    match c.reply with
    | .ok answer => answer.start
    | .error _ => 0
  payload := c.request.payload

/-- Appends that answer as they should have laid their payloads out. -/
theorem Trace.map_written {calls : List Call} {log : Bytes} (h : Trace Exact calls log)
    (happends : ∀ c ∈ calls, c.request.isFlushing = false) :
    calls.map Call.written = laidOut 0 (calls.map fun c => c.request.payload) := by
  induction h with
  | nil => rfl
  | @snoc calls log log' c before last ih =>
    have happend := happends c (List.mem_append_right _ (List.mem_singleton.2 rfl))
    obtain ⟨client, request, begun, ended, reply⟩ := c
    cases request with
    | append data =>
      have hwritten : Call.written ⟨client, .append data, begun, ended, reply⟩ =
          { offset := log.length, payload := data } := by
        rw [Call.written, show reply = _ from last.eq.1]
        rfl
      rw [List.map_append, List.map_append, laidOut_append,
        ih fun c hc => happends c (List.mem_append_left _ hc), List.map_singleton, hwritten,
        before.log_eq, payloads, Nat.zero_add]
      rfl
    | _ => cases happend

/-- How an appender goes with the place of its client and the calls of the client that are over. -/
inductive Tracks (a : Appender) (p : ClientPoint) (ended : List Call) : Prop
  /-- It has nothing under way. -/
  | free (nothing : a.current = none) (idle : p.isIdle = true)
    (seen : ended.map Call.written = a.written)
  /-- Its append is under way. -/
  | underway {payload : Bytes} (something : a.current = some payload)
    (given : p.request? = some (.append payload)) (seen : ended.map Call.written = a.written)
  /-- Its append has finished, and the reply is still to be collected. -/
  | replied {payload : Bytes} {earlier : List Call} {c : Call} (something : a.current = some payload)
    (ends : ended = earlier ++ [c]) (given : c.request = .append payload)
    (idle : p = .idle (some c.reply)) (seen : earlier.map Call.written = a.written)

theorem Tracks.woken {a : Appender} {p q : ClientPoint} {ended : List Call} (h : Tracks a p ended)
    (hw : ClientPoint.Woken p q) : Tracks a q ended := by
  cases h with
  | free nothing idle seen => exact .free nothing (hw.isIdle.trans idle) seen
  | underway something given seen => exact .underway something (hw.request?.trans given) seen
  | replied something ends given idle seen =>
    subst idle
    cases hw
    exact .replied something ends given rfl seen

namespace History

variable {δ : Type} {m m' : Machine δ} {actor : Actor} {past : History δ}

/-- A step ends a call of the client that takes it. -/
theorem client_of_ending {c : Call} (h : ending? ⟨m, .step actor, m'⟩ past = some c) :
    actor = .client c.client := by
  unfold ending? at h
  split at h
  · rename_i t hmove
    split at h
    · cases h
      exact Move.step.inj hmove
    · cases h
  · cases h

/-- A step ends no call of another client. -/
theorem filter_calls {u : Nat} (h : actor ≠ .client u) :
    (calls (⟨m, .step actor, m'⟩ :: past)).filter (·.client == u) =
      past.calls.filter (·.client == u) := by
  have hnone : (ending? ⟨m, .step actor, m'⟩ past).toList.filter (·.client == u) = [] := by
    cases hending : ending? ⟨m, .step actor, m'⟩ past with
    | none => rfl
    | some c =>
      refine List.filter_cons_of_neg fun hc => h ?_
      rw [← LawfulBEq.eq_of_beq hc]
      exact client_of_ending hending
  rw [calls, List.filter_append, hnone, List.append_nil]

end History

open Machine

variable {δ : Type} [Device δ] {m m' m₁ : Machine δ} {past : History δ}

/-- An appender goes along with its client. -/
theorem Tracks.clientStep {a : Appender} {t : Nat} {p p' : ClientPoint} (hb : History.Booked past m)
    (hp : m.clients[t]? = some p) (hs : ClientStep m t p p' m₁)
    (h : Tracks a p (past.calls.filter (·.client == t))) :
    Tracks a p' ((History.calls (⟨m, .step (.client t), m₁.setClient t p'⟩ :: past)).filter
      (·.client == t)) := by
  have hbusy := hs.not_idle
  cases h with
  | free nothing idle seen =>
    rw [idle] at hbusy
    cases hbusy
  | replied something ends given idle seen =>
    rw [idle] at hbusy
    cases hbusy
  | @underway payload something given seen =>
    obtain ⟨begun, request, hreq, -, ⟨reply, rfl, hending⟩ | ⟨hgoes, hending⟩⟩ :=
      History.calls_clientStep hb hp hs
    · rw [given] at hreq
      cases hreq
      rw [History.calls, hending, Option.toList_some, List.filter_append,
        List.filter_cons_of_pos (by simp), List.filter_nil]
      exact .replied something rfl rfl rfl seen
    · rw [given] at hreq
      cases hreq
      rw [History.calls, hending, Option.toList_none, List.append_nil]
      exact .underway something hgoes seen

/-- Appender `i` goes with client `i + 1`, and client 0 has nothing to do. -/
structure Team (appenders : List Appender) (past : History δ) (m : Machine δ) : Prop where
  length : m.clients.length = appenders.length + 1
  owner : ∀ p, m.clients[0]? = some p → p.isIdle = true
  others : ∀ c ∈ past.calls, 0 < c.client ∧ c.client ≤ appenders.length
  tracks : ∀ i a, appenders[i]? = some a → ∃ p, m.clients[i + 1]? = some p ∧
    Tracks a p (past.calls.filter (·.client == i + 1))

namespace Team

variable {appenders : List Appender}

theorem step (h : Team appenders past m) (hb : History.Booked past m) {actor : Actor}
    (hm : m.step? actor = some m') : Team appenders (⟨m, .step actor, m'⟩ :: past) m' := by
  have hlength : m'.clients.length = m.clients.length :=
    length_clients (show m.move? (.step actor) = some m' from hm)
  match actor, hm with
  | .writer, hm =>
    have hs : WriterStep m m' := writerStep?_cases hm
    have hcalls : History.calls (⟨m, .step .writer, m'⟩ :: past) = past.calls := List.append_nil _
    refine ⟨hlength.trans h.length, fun q hq => ?_, hcalls ▸ h.others, fun i a ha => ?_⟩
    · obtain ⟨p, hp, hw⟩ := hs.woken_from hq
      rw [hw.isIdle]
      exact h.owner p hp
    · obtain ⟨p, hp, htracks⟩ := h.tracks i a ha
      obtain ⟨q, hq, hw⟩ := hs.exists_woken hp
      exact ⟨q, hq, hcalls ▸ htracks.woken hw⟩
  | .client t, hm =>
    obtain ⟨p, p', m₁, hp, hs, rfl⟩ := clientStep?_cases hm
    have hplaced := hs.placed hp
    have ht : t ≠ 0 := by
      rintro rfl
      have hidle := h.owner p hp
      rw [hs.not_idle] at hidle
      cases hidle
    refine ⟨hlength.trans h.length, fun q hq => ?_, fun c hc => ?_, fun i a ha => ?_⟩
    · rw [hplaced.other (Ne.symm ht)] at hq
      exact h.owner q hq
    · rcases List.mem_append.1 hc with hbefore | hends
      · exact h.others c hbefore
      · rw [← Actor.client.inj (History.client_of_ending (Option.mem_toList.1 hends))]
        have hlt := (List.getElem?_eq_some_iff.1 hp).1
        rw [h.length] at hlt
        exact ⟨Nat.pos_of_ne_zero ht, Nat.le_of_lt_succ hlt⟩
    · obtain ⟨q, hq, htracks⟩ := h.tracks i a ha
      by_cases hit : i + 1 = t
      · rw [hit] at hq htracks ⊢
        cases hp.symm.trans hq
        exact ⟨p', hplaced.self, htracks.clientStep hb hp hs⟩
      · refine ⟨q, (hplaced.other hit).trans hq, ?_⟩
        rw [History.filter_calls fun heq => hit (Actor.client.inj heq).symm]
        exact htracks

omit [Device δ] in
/-- An appender with nothing under way gives its client the next append. -/
theorem submit (h : Team appenders past m) {i : Nat} {a : Appender} (ha : appenders[i]? = some a)
    (hnothing : a.current = none) {payload : Bytes} {rest : List Bytes}
    (hm : m.submit? (i + 1) (.append payload) = some m') :
    Team (appenders.set i { a with pending := rest, current := some payload })
      (⟨m, .submit (i + 1) (.append payload), m'⟩ :: past) m' := by
  have hplaced := submit?_placed hm
  have hcalls : History.calls (⟨m, .submit (i + 1) (.append payload), m'⟩ :: past) = past.calls :=
    List.append_nil _
  obtain ⟨q, hq, htracks⟩ := h.tracks i a ha
  have hseen : (past.calls.filter (·.client == i + 1)).map Call.written = a.written := by
    cases htracks with
    | free _ _ seen => exact seen
    | underway something | replied something =>
      rw [hnothing] at something
      cases something
  refine ⟨?_, fun p hp => ?_, ?_, fun j b hb => ?_⟩
  · rw [List.length_set, hplaced.length]
    exact h.length
  · rw [hplaced.other (Nat.succ_ne_zero i).symm] at hp
    exact h.owner p hp
  · rw [hcalls, List.length_set]
    exact h.others
  · rw [hcalls]
    by_cases hji : j = i
    · subst hji
      rw [List.getElem?_set_self (List.getElem?_eq_some_iff.1 ha).1] at hb
      cases hb
      exact ⟨_, hplaced.self, .underway rfl rfl hseen⟩
    · rw [List.getElem?_set_ne (Ne.symm hji)] at hb
      obtain ⟨p, hp, htracks⟩ := h.tracks j b hb
      exact ⟨p, (hplaced.other (by omega)).trans hp, htracks⟩

omit [Device δ] in
/-- What an appender has to do with the reply of its client is to take note of it, once. -/
theorem settle_cases (h : Team appenders past m)
    (hok : ∀ c ∈ past.calls, ∃ answer, c.reply = .ok answer) {i : Nat} {a : Appender}
    (ha : appenders[i]? = some a) {reply : Reply} (hreply : m.reply? (i + 1) = some reply) :
    (a.current = none ∧ a.settle reply = a) ∨
    ∃ payload w, a.current = some payload ∧ w.payload = payload ∧
      a.settle reply = { a with current := none, written := a.written ++ [w] } ∧
      (past.calls.filter (·.client == i + 1)).map Call.written = a.written ++ [w] := by
  obtain ⟨p, hp, htracks⟩ := h.tracks i a ha
  rw [Machine.reply?, hp] at hreply
  cases htracks with
  | free nothing => exact .inl ⟨nothing, by simp only [Appender.settle, nothing]⟩
  | underway _ given =>
    cases p with
    | idle => cases given
    | _ => cases hreply
  | @replied payload earlier c something ends given idle seen =>
    subst idle
    cases hreply
    have hc : c ∈ past.calls := by
      have hmem : c ∈ past.calls.filter (·.client == i + 1) := by rw [ends]; simp
      exact (List.mem_filter.1 hmem).1
    obtain ⟨answer, hanswer⟩ := hok c hc
    refine .inr ⟨payload, { offset := answer.start, payload }, something, rfl, ?_, ?_⟩
    · simp only [Appender.settle, something, hanswer]
    · rw [ends, List.map_append, seen, List.map_singleton, Call.written, hanswer, given]
      rfl

omit [Device δ] in
/-- An appender collects the reply of its client, if there is one. -/
theorem collect (h : Team appenders past m)
    (hok : ∀ c ∈ past.calls, ∃ answer, c.reply = .ok answer) {i : Nat} {a : Appender}
    (ha : appenders[i]? = some a) {reply : Reply} (hreply : m.reply? (i + 1) = some reply) :
    Team (appenders.set i (a.settle reply)) past m := by
  refine ⟨by rw [List.length_set]; exact h.length, h.owner, by rw [List.length_set]; exact h.others,
    fun j b hb => ?_⟩
  by_cases hji : j = i
  · subst hji
    rw [List.getElem?_set_self (List.getElem?_eq_some_iff.1 ha).1] at hb
    cases hb
    rcases h.settle_cases hok ha hreply with ⟨-, hsame⟩ | ⟨payload, w, -, -, hsettled, hseen⟩
    · rw [hsame]
      exact h.tracks j a ha
    · obtain ⟨p, hp, -⟩ := h.tracks j a ha
      rw [Machine.reply?, hp] at hreply
      rw [hsettled]
      refine ⟨p, hp, .free rfl ?_ hseen⟩
      cases p with
      | idle => rfl
      | _ => cases hreply
  · rw [List.getElem?_set_ne (Ne.symm hji)] at hb
    exact h.tracks j b hb

omit [Device δ] in
/-- Which appender a call is from. -/
theorem filter_owner (h : Team appenders past m) (i : Nat) :
    past.calls.filter (fun c => c.client - 1 == i) = past.calls.filter (·.client == i + 1) := by
  refine List.filter_congr fun c hc => ?_
  have hpos := (h.others c hc).1
  rw [Bool.eq_iff_iff, beq_iff_eq, beq_iff_eq]
  omega

omit [Device δ] in
theorem owner_lt (h : Team appenders past m) : ∀ c ∈ past.calls, c.client - 1 < appenders.length := by
  intro c hc
  obtain ⟨hpos, hle⟩ := h.others c hc
  omega

end Team

end BlockLog
