import BlockLog.Proofs.Workload.Team

/-! A team of appenders from its start to its end. Whatever turns they have taken, each record is with its
    appender in one of three places, and the log has only been given appends; so nothing fails, and no
    record is lost or comes twice. When a schedule is over, what is left is appended one record after
    the other.

        records:   ├── written ──┤ current ├── pending ──┤      at any time
                   ├────────────── written ──────────────┤      when all are through -/

namespace BlockLog

/-- All the records of an appender, wherever they are by now. -/
def Appender.all (a : Appender) : List Bytes :=
  a.written.map Written.payload ++ a.current.toList ++ a.pending

/-- How many bytes of records an appender has still to give. -/
def Appender.left (a : Appender) : Nat := a.pending.flatten.length

theorem set_eq_self {α : Type} {l : List α} {i : Nat} {a : α} (h : l[i]? = some a) : l.set i a = l := by
  obtain ⟨hi, rfl⟩ := List.getElem?_eq_some_iff.1 h
  exact List.set_getElem_self hi

theorem map_set_of_eq {α β : Type} {f : α → β} {l : List α} {i : Nat} {a a' : α} (h : l[i]? = some a)
    (hf : f a' = f a) : (l.set i a').map f = l.map f := by
  rw [List.map_set, hf]
  exact set_eq_self (by rw [List.getElem?_map, h]; rfl)

namespace Workload

variable {δ : Type} [Device δ] [LawfulDevice δ]

/-- The log is at rest, and all replies have been collected. -/
structure Paused (w : Workload δ) : Prop where
  quiet : Machine.Quiet w.machine
  collected : ∀ a ∈ w.appenders, a.current = none

/-- No appender has anything left to append. -/
def Through (w : Workload δ) : Prop := ∀ a ∈ w.appenders, a.pending = [] ∧ a.current = none

end Workload

open Machine LawfulDevice

variable {δ : Type} [Device δ] [LawfulDevice δ] {device : δ} {settings : Settings} {clients limit : Nat}
  {records : List (List Bytes)} {m₀ m : Machine δ} {past : History δ} {w : Workload δ}

/-- A team at work on a log that has been opened for it. -/
structure Works (device : δ) (m₀ : Machine δ) (limit : Nat) (records : List (List Bytes))
    (past : History δ) (w : Workload δ) : Prop where
  reached : Reaches m₀ past w.machine
  becomes : Device.Becomes device w.machine.device
  appends : past.AppendsOnly
  team : Team w.appenders past w.machine
  whole : w.appenders.map Appender.all = records
  sound : ∀ a ∈ w.appenders, a.failure = none
  room : past.given + total Appender.left w.appenders ≤ limit

namespace Works

/-- A team that has not started. -/
theorem start (H : Handed device settings (records.length + 1) limit [] m₀ m₀)
    (hroom : total (fun pending => pending.flatten.length) records ≤ limit) :
    Works device m₀ limit records []
      { machine := m₀, appenders := records.map fun pending => { pending } } where
  reached := .start
  becomes := H.becomes
  appends := fun request hr => by cases hr
  team :=
    { length := by
        rw [List.length_map]
        exact length_clients_of_reaches H.opened .start
      owner := fun p hp => H.idle p (List.mem_of_getElem? hp)
      others := fun c hc => by cases hc
      tracks := fun i a ha => by
        rw [List.getElem?_map, Option.map_eq_some_iff] at ha
        obtain ⟨pending, hpending, rfl⟩ := ha
        have hlt : i + 1 < m₀.clients.length := by
          rw [length_clients_of_reaches H.opened .start]
          exact Nat.succ_lt_succ (List.getElem?_eq_some_iff.1 hpending).1
        exact ⟨_, List.getElem?_eq_getElem hlt,
          .free rfl (H.idle _ (List.getElem_mem hlt)) rfl⟩ }
  whole := by
    rw [List.map_map]
    exact List.map_id records
  sound := fun a ha => by
    obtain ⟨pending, -, rfl⟩ := List.mem_map.1 ha
    rfl
  room := by
    rw [total_map]
    exact Nat.le_trans (Nat.le_of_eq (Nat.zero_add _)) hroom

variable (H : Handed device settings clients limit [] m₀ m₀)
  (h : Works device m₀ limit records past w)

include H h

theorem unfailing : past.Unfailing := by
  have hu := H.unfailing h.reached (Nat.le_trans (Nat.le_of_eq (Nat.zero_add _))
    (Nat.le_trans (Nat.le_add_right ..) h.room))
  rwa [List.append_nil] at hu

theorem exact : ∃ log, Trace Exact past.calls log := by
  obtain ⟨flushed, log, -, -, htrace⟩ := ledger_of_reaches H.opened h.reached
  exact ⟨log, htrace.exact (sound_of_reaches H.opened h.reached (h.unfailing H)).2⟩

/-- No append meets an error. -/
theorem answered : ∀ c ∈ past.calls, ∃ answer, c.reply = .ok answer := by
  intro c hc
  obtain ⟨log, hexact⟩ := h.exact H
  obtain ⟨before, after, hsplit⟩ := List.append_of_mem hc
  have happend := h.appends _ (History.mem_requests_of_mem_calls hc)
  rw [hexact.reply_eq hsplit]
  cases hreq : c.request with
  | append data => exact ⟨_, rfl⟩
  | _ =>
    rw [hreq] at happend
    cases happend

theorem going : w.machine.closed = false :=
  closed_of_reaches h.reached H.going fun hclose => by cases h.appends _ hclose

/-! ### One turn -/

theorem step {actor : Actor} (hm : w.machine.step? actor = some m) :
    Works device m₀ limit records (⟨w.machine, .step actor, m⟩ :: past) { w with machine := m } where
  reached := h.reached.move (.step actor) hm
  becomes := becomes_step hm h.becomes
  appends := fun request hr => h.appends request (by rwa [History.requests_step] at hr)
  team := h.team.step (History.booked_of_reaches H.opened h.reached) hm
  whole := h.whole
  sound := h.sound
  room := by
    rw [History.given_step]
    exact h.room

/-- What an appender takes note of is what it had under way. -/
theorem collect (i : Nat) : Works device m₀ limit records past (w.collect i) ∧
    (w.collect i).machine = w.machine ∧
    (w.collect i).appenders.map Appender.pending = w.appenders.map Appender.pending ∧
    ∀ (j : Nat) (a : Appender), (w.collect i).appenders[j]? = some a →
      a.current = none ∨ w.appenders[j]? = some a := by
  have hsame : Works device m₀ limit records past w ∧ w.machine = w.machine ∧
      w.appenders.map Appender.pending = w.appenders.map Appender.pending ∧
      ∀ (j : Nat) (a : Appender), w.appenders[j]? = some a →
        a.current = none ∨ w.appenders[j]? = some a :=
    ⟨h, rfl, rfl, fun _ _ ha => .inr ha⟩
  unfold Workload.collect
  split
  · rename_i a reply ha hreply
    have hteam := h.team.collect (h.answered H) ha hreply
    rcases h.team.settle_cases (h.answered H) ha hreply with
      ⟨-, hnothing⟩ | ⟨payload, r, hcurrent, hpayload, hsettled, -⟩
    · rw [hnothing, set_eq_self ha]
      exact hsame
    · have hall : (a.settle reply).all = a.all := by
        rw [hsettled, Appender.all, Appender.all, hcurrent, List.map_append, List.map_singleton,
          hpayload, Option.toList_none, List.append_nil]
        rfl
      have hpending : (a.settle reply).pending = a.pending := by rw [hsettled]
      refine ⟨⟨h.reached, h.becomes, h.appends, hteam, ?_, ?_, ?_⟩, rfl, map_set_of_eq ha hpending,
        fun j b hb => ?_⟩
      · exact (map_set_of_eq ha hall).trans h.whole
      · intro b hb
        rcases List.mem_or_eq_of_mem_set hb with hb | rfl
        · exact h.sound b hb
        · rw [hsettled]
          exact h.sound a (List.mem_of_getElem? ha)
      · have hset := total_set Appender.left (a.settle reply) ha
        rw [show (a.settle reply).left = a.left from
          congrArg (fun pending => pending.flatten.length) hpending] at hset
        show past.given + total Appender.left (w.appenders.set i _) ≤ limit
        rw [Nat.add_right_cancel hset]
        exact h.room
      · by_cases hji : j = i
        · subst hji
          rw [List.getElem?_set_self (List.getElem?_eq_some_iff.1 ha).1, hsettled] at hb
          cases hb
          exact .inl rfl
        · rw [List.getElem?_set_ne (Ne.symm hji)] at hb
          exact .inr hb
  · exact hsame

/-- Where nobody is under way an appender has nothing to take note of any more. -/
theorem current_collect (hidle : ∀ p ∈ w.machine.clients, p.isIdle = true) {i : Nat} {a : Appender}
    (ha : (w.collect i).appenders[i]? = some a) : a.current = none := by
  unfold Workload.collect at ha
  split at ha
  · rename_i b reply hb hreply
    rw [List.getElem?_set_self (List.getElem?_eq_some_iff.1 hb).1] at ha
    cases ha
    rcases h.team.settle_cases (h.answered H) hb hreply with
      ⟨hnothing, hsame⟩ | ⟨payload, r, -, -, hsettled, -⟩
    · rw [hsame]
      exact hnothing
    · rw [hsettled]
  · rename_i hnone
    obtain ⟨p, hp, htracks⟩ := h.team.tracks i a ha
    cases htracks with
    | free nothing => exact nothing
    | underway _ given =>
      have hi := hidle p (List.mem_of_getElem? hp)
      cases p with
      | idle => cases given
      | _ => cases hi
    | @replied payload earlier c _ _ _ idle =>
      exact (hnone a c.reply ha (by rw [Machine.reply?, hp, idle]; rfl)).elim

omit H in
/-- The next record of an appender is given. -/
theorem give {i : Nat} {a : Appender} (ha : w.appenders[i]? = some a) (hnothing : a.current = none)
    {payload : Bytes} {rest : List Bytes} (hpending : a.pending = payload :: rest)
    (hm : w.machine.submit? (i + 1) (.append payload) = some m) :
    Works device m₀ limit records (⟨w.machine, .submit (i + 1) (.append payload), m⟩ :: past)
      { machine := m
        appenders := w.appenders.set i { a with pending := rest, current := some payload } } where
  reached := h.reached.submit hm
  becomes := by
    show Device.Becomes device m.device
    rw [(submit?_frame hm).2.2]
    exact h.becomes
  appends := fun request hr => by
    rcases List.mem_append.1 hr with hbefore | hlast
    · exact h.appends request hbefore
    · cases List.mem_singleton.1 hlast
      rfl
  team := h.team.submit ha hnothing hm
  whole := by
    refine (map_set_of_eq ha ?_).trans h.whole
    rw [Appender.all, Appender.all, hnothing, hpending]
    simp
  sound := fun b hb => by
    rcases List.mem_or_eq_of_mem_set hb with hb | rfl
    · exact h.sound b hb
    · exact h.sound a (List.mem_of_getElem? ha)
  room := by
    have hset := total_set Appender.left { a with pending := rest, current := some payload } ha
    have hleft : a.left = payload.length + rest.flatten.length := by
      rw [Appender.left, hpending, List.flatten_cons, List.length_append]
    have hroom := h.room
    rw [hleft, show Appender.left { a with pending := rest, current := some payload } =
      rest.flatten.length from rfl] at hset
    rw [History.given_submit]
    show past.given + payload.length + total Appender.left (w.appenders.set i _) ≤ limit
    omega

theorem turn (t : Turn) : ∃ past', Works device m₀ limit records past' (w.turn t) := by
  cases t with
  | append i =>
    show ∃ past', Works device m₀ limit records past' (w.submit i)
    unfold Workload.submit
    split
    · rename_i payload rest written failure ha
      split
      · rename_i m hm
        exact ⟨_, h.give ha rfl rfl hm⟩
      · exact ⟨past, h⟩
    · exact ⟨past, h⟩
  | step actor =>
    have hstep : ∃ past', Works device m₀ limit records past'
        { w with machine := (w.machine.step? actor).getD w.machine } := by
      cases hm : w.machine.step? actor with
      | none => exact ⟨past, h⟩
      | some m => exact ⟨_, h.step H hm⟩
    obtain ⟨past', h'⟩ := hstep
    match actor with
    | .writer | .client 0 => exact ⟨past', h'⟩
    | .client (i + 1) => exact ⟨past', (h'.collect H i).1⟩

omit h in
/-- The turns of a schedule. -/
theorem play (schedule : List Turn) : ∀ {past : History δ} {w : Workload δ},
    Works device m₀ limit records past w →
    ∃ past', Works device m₀ limit records past' (w.play schedule) := by
  induction schedule with
  | nil => exact fun h => ⟨_, h⟩
  | cons t schedule ih =>
    intro past w h
    obtain ⟨past', h'⟩ := h.turn H t
    exact ih h'

/-! ### Until all are through -/

/-- The schedule of the log goes on until the log is at rest. -/
theorem rest : ∃ past', Works device m₀ limit records past' { w with machine := w.machine.settle } ∧
    Quiet w.machine.settle := by
  have hadvance : ∀ (fuel : Nat) {past : History δ} {m : Machine δ},
      Works device m₀ limit records past { w with machine := m } →
      ∃ past', Works device m₀ limit records past' { w with machine := m.advance false fuel } := by
    intro fuel
    induction fuel with
    | zero => exact fun h => ⟨_, h⟩
    | succ fuel ih =>
      intro past m h
      rw [Machine.advance]
      cases hnext : m.next? false with
      | none => exact ⟨_, h⟩
      | some next =>
        obtain ⟨actor, hs⟩ := next?_eq_some hnext
        exact ih (h.step H hs)
  obtain ⟨past', h'⟩ := hadvance w.machine.potential h
  obtain ⟨more, hdry⟩ := runsDry_settle H.opened h.reached
  obtain ⟨⟨flushed, hinv⟩, -⟩ := inv_of_reaches H.opened h'.reached
  have hu := h'.unfailing H
  have hgoing := (appending_of_reaches H.opened h'.reached hu h'.appends).going
  refine ⟨past', h', quiet_of_stuck hinv (live_of_reaches H.opened h'.reached)
    (sound_of_reaches H.opened h'.reached hu).1 (fun hstop => ?_) hdry.stuck⟩
  rw [show w.machine.settle.state.stop = false from hgoing] at hstop
  cases hstop

/-- What is under way is finished and collected, and nothing new is given. -/
theorem settle : ∃ past', Works device m₀ limit records past' w.settle ∧ w.settle.Paused ∧
    w.settle.appenders.map Appender.pending = w.appenders.map Appender.pending := by
  obtain ⟨past', h', hquiet⟩ := h.rest H
  have hcollect : ∀ n, Works device m₀ limit records past'
        ((List.range n).foldl Workload.collect { w with machine := w.machine.settle }) ∧
      ((List.range n).foldl Workload.collect { w with machine := w.machine.settle }).machine =
        w.machine.settle ∧
      ((List.range n).foldl Workload.collect { w with machine := w.machine.settle }).appenders.map
        Appender.pending = w.appenders.map Appender.pending ∧
      ∀ j, j < n → ∀ a, ((List.range n).foldl Workload.collect
        { w with machine := w.machine.settle }).appenders[j]? = some a → a.current = none := by
    intro n
    induction n with
    | zero => exact ⟨h', rfl, rfl, fun j hj => absurd hj (Nat.not_lt_zero j)⟩
    | succ n ih =>
      obtain ⟨hn, hmachine, hpending, hcurrent⟩ := ih
      rw [List.range_succ, List.foldl_concat]
      obtain ⟨hworks, hmachine', hpending', hcases⟩ := hn.collect H n
      refine ⟨hworks, hmachine'.trans hmachine, hpending'.trans hpending, fun j hj a ha => ?_⟩
      rcases hcases j a ha with hnone | hbefore
      · exact hnone
      · by_cases hjn : j = n
        · subst hjn
          exact hn.current_collect H (by rw [hmachine]; exact hquiet.idle) ha
        · exact hcurrent j (by omega) a hbefore
  obtain ⟨hworks, hmachine, hpending, hcurrent⟩ := hcollect w.appenders.length
  refine ⟨past', hworks, ⟨?_, fun a ha => ?_⟩, hpending⟩
  · rw [Workload.settle, hmachine]
    exact hquiet
  · obtain ⟨j, hj⟩ := List.mem_iff_getElem?.1 ha
    refine hcurrent j ?_ a hj
    have hlength := congrArg List.length hpending
    rw [List.length_map, List.length_map] at hlength
    rw [← hlength]
    exact (List.getElem?_eq_some_iff.1 hj).1

omit h in
/-- An appender gives one record after the other, as many as there are. -/
theorem giveAll (i : Nat) (pending : List Bytes) : ∀ {past : History δ} {w : Workload δ},
    Works device m₀ limit records past w → w.Paused →
    (w.appenders.map Appender.pending)[i]? = some pending →
    ∃ past', Works device m₀ limit records past'
        (pending.foldl (fun w _ => (w.submit i).settle) w) ∧
      (pending.foldl (fun w _ => (w.submit i).settle) w).Paused ∧
      (pending.foldl (fun w _ => (w.submit i).settle) w).appenders.map Appender.pending =
        (w.appenders.map Appender.pending).set i [] := by
  induction pending with
  | nil => exact fun h hpaused hi => ⟨_, h, hpaused, (set_eq_self hi).symm⟩
  | cons payload rest ih =>
    intro past w h hpaused hi
    rw [List.getElem?_map, Option.map_eq_some_iff] at hi
    obtain ⟨a, ha, hpending⟩ := hi
    have hi := (List.getElem?_eq_some_iff.1 ha).1
    have hnothing := hpaused.collected a (List.mem_of_getElem? ha)
    obtain ⟨m, hm⟩ := submit?_of_idle (h.going H) hpaused.quiet.idle
      (show i + 1 < w.machine.clients.length by rw [h.team.length]; exact Nat.succ_lt_succ hi)
      (.append payload)
    have hsubmit : w.submit i =
        { machine := m
          appenders := w.appenders.set i { a with pending := rest, current := some payload } } := by
      obtain ⟨pending, current, written, failure⟩ := a
      cases hpending
      cases hnothing
      simp only [Workload.submit, ha, hm]
    have hgiven := h.give ha hnothing hpending hm
    rw [← hsubmit] at hgiven
    obtain ⟨past', h', hpaused', hpending'⟩ := hgiven.settle H
    rw [hsubmit, List.map_set] at hpending'
    rw [← hsubmit] at hpending'
    obtain ⟨past'', h'', hpaused'', hpending''⟩ := ih h' hpaused' (by
      rw [hpending', List.getElem?_set_self (by rw [List.length_map]; exact hi)])
    exact ⟨past'', h'', hpaused'', by rw [List.foldl_cons, hpending'', hpending', List.set_set]⟩

/-- An appender appends all that it has left. -/
theorem finishAppender (i : Nat) (hpaused : w.Paused) :
    ∃ past', Works device m₀ limit records past' (w.finishAppender i) ∧ (w.finishAppender i).Paused ∧
      (w.finishAppender i).appenders.map Appender.pending =
        (w.appenders.map Appender.pending).set i [] := by
  unfold Workload.finishAppender
  cases hi : w.appenders[i]? with
  | none =>
    refine ⟨past, h, hpaused, (List.set_eq_of_length_le ?_).symm⟩
    rw [List.length_map]
    exact List.getElem?_eq_none_iff.1 hi
  | some a => exact giveAll H i a.pending h hpaused (by rw [List.getElem?_map, hi]; rfl)

/-- A whole run, whatever schedule it starts with, is one after which all are through. -/
theorem run (schedule : List Turn) : ∃ past', Works device m₀ limit records past' (w.run schedule) ∧
    (w.run schedule).Paused ∧ (w.run schedule).Through := by
  obtain ⟨past₁, h₁⟩ := play H schedule h
  obtain ⟨past₂, h₂, hpaused, -⟩ := h₁.settle H
  have hfinish : ∀ n, n ≤ records.length → ∃ past', Works device m₀ limit records past'
        ((List.range n).foldl Workload.finishAppender (w.play schedule).settle) ∧
      ((List.range n).foldl Workload.finishAppender (w.play schedule).settle).Paused ∧
      ∀ j, j < n → (((List.range n).foldl Workload.finishAppender
        (w.play schedule).settle).appenders.map Appender.pending)[j]? = some [] := by
    intro n
    induction n with
    | zero => exact fun _ => ⟨past₂, h₂, hpaused, fun j hj => absurd hj (Nat.not_lt_zero j)⟩
    | succ n ih =>
      intro hn
      obtain ⟨past', h', hpaused', hdone⟩ := ih (Nat.le_of_succ_le hn)
      obtain ⟨past'', h'', hpaused'', hpending⟩ := h'.finishAppender H n hpaused'
      rw [List.range_succ, List.foldl_concat]
      refine ⟨past'', h'', hpaused'', fun j hj => ?_⟩
      rw [hpending]
      by_cases hjn : j = n
      · subst hjn
        refine List.getElem?_set_self ?_
        rw [List.length_map, ← List.length_map Appender.all, h'.whole]
        exact hn
      · rw [List.getElem?_set_ne (Ne.symm hjn)]
        exact hdone j (by omega)
  have hlength : w.appenders.length = records.length := by rw [← h.whole, List.length_map]
  obtain ⟨past', h', hpaused', hdone⟩ := hfinish records.length (Nat.le_refl _)
  rw [← hlength] at h' hpaused' hdone
  refine ⟨past', h', hpaused', fun a ha => ⟨?_, hpaused'.collected a ha⟩⟩
  rw [Workload.run] at ha
  obtain ⟨j, hj⟩ := List.mem_iff_getElem?.1 ha
  have hnone := hdone j (by
    rw [hlength, ← h'.whole, List.length_map]
    exact (List.getElem?_eq_some_iff.1 hj).1)
  rw [List.getElem?_map, hj] at hnone
  exact Option.some.inj hnone

omit H h in
/-- A team that comes to a log that its owner has opened. -/
theorem join {m₁ : Machine δ}
    (h₀ : Machine.open? device settings 1 = .ok m₀)
    (H : Handed device settings (1 + records.length) limit [] m₁ m₁)
    (hroom : total (fun pending => pending.flatten.length) records ≤ limit) :
    ∃ past, Works device m₁ limit records past (Workload.start m₀.settle records) := by
  obtain ⟨past, h, -⟩ := (start (Nat.add_comm 1 _ ▸ H) hroom).rest (Nat.add_comm 1 _ ▸ H)
  refine ⟨past, ?_⟩
  rw [Workload.start, Nat.add_comm, settle_withClients h₀ H.opened]
  exact h

/-! ### What a team leaves -/

variable (hthrough : w.Through)

include hthrough

omit H in
/-- Nobody is under way. -/
theorem idle : ∀ p ∈ w.machine.clients, p.isIdle = true := by
  intro p hp
  obtain ⟨t, ht⟩ := List.mem_iff_getElem?.1 hp
  match t, ht with
  | 0, ht => exact h.team.owner p ht
  | i + 1, ht =>
    have hlt := (List.getElem?_eq_some_iff.1 ht).1
    rw [h.team.length] at hlt
    have hi := Nat.lt_of_succ_lt_succ hlt
    obtain ⟨q, hq, htracks⟩ := h.team.tracks i _ (List.getElem?_eq_getElem hi)
    cases ht.symm.trans hq
    cases htracks with
    | free _ idle => exact idle
    | underway something | replied something =>
      rw [(hthrough _ (List.getElem_mem hi)).2] at something
      cases something

omit H in
/-- An appender has seen all calls of its client. -/
theorem seen {i : Nat} {a : Appender} (ha : w.appenders[i]? = some a) :
    (past.calls.filter (·.client == i + 1)).map Call.written = a.written := by
  obtain ⟨p, -, htracks⟩ := h.team.tracks i a ha
  cases htracks with
  | free _ _ seen => exact seen
  | underway something | replied something =>
    rw [(hthrough a (List.mem_of_getElem? ha)).2] at something
    cases something

omit H in
/-- They have brought the records of the appender, in turn. -/
theorem brought {i : Nat} {mine : List Bytes} (hi : records[i]? = some mine) :
    (past.calls.filter (·.client == i + 1)).map (fun c => c.request.payload) = mine := by
  rw [← h.whole, List.getElem?_map, Option.map_eq_some_iff] at hi
  obtain ⟨a, ha, rfl⟩ := hi
  obtain ⟨hpending, hnothing⟩ := hthrough a (List.mem_of_getElem? ha)
  rw [Appender.all, hpending, hnothing, ← h.seen hthrough ha, List.map_map, List.append_nil,
    Option.toList_none, List.append_nil]
  rfl

omit H in
/-- All that an appender had to append is written. -/
theorem written_mem {a : Appender} (ha : a ∈ w.appenders) :
    a.written.map Written.payload ∈ records := by
  obtain ⟨hpending, hnothing⟩ := hthrough a ha
  rw [← h.whole]
  have hall : a.written.map Written.payload = a.all := by
    rw [Appender.all, hpending, hnothing, Option.toList_none, List.append_nil, List.append_nil]
  exact hall ▸ List.mem_map_of_mem ha

/-- Taken together the records are those that the calls have left, one behind the other. -/
theorem written_perm : (w.appenders.flatMap Appender.written).Perm
    (laidOut 0 (past.calls.map fun c => c.request.payload)) := by
  obtain ⟨log, hexact⟩ := h.exact H
  have hwritten := hexact.map_written fun c hc =>
    h.appends _ (History.mem_requests_of_mem_calls hc)
  have hbyAppender : w.appenders.map Appender.written = (List.range w.appenders.length).map fun i =>
      (past.calls.filter fun c => c.client - 1 == i).map Call.written := by
    refine List.ext_getElem? fun i => ?_
    rw [List.getElem?_map, List.getElem?_map]
    by_cases hi : i < w.appenders.length
    · rw [List.getElem?_range hi, List.getElem?_eq_getElem hi]
      refine congrArg some ((h.seen hthrough (List.getElem?_eq_getElem hi)).symm.trans ?_)
      exact congrArg (List.map Call.written) (h.team.filter_owner i).symm
    · rw [List.getElem?_eq_none (Nat.not_lt.1 hi),
        List.getElem?_eq_none (by rw [List.length_range]; exact Nat.not_lt.1 hi)]
      rfl
  rw [← hwritten, List.flatMap_def, hbyAppender, ← List.flatMap_def, ← List.map_flatMap]
  exact (flatMap_owner_perm (fun c : Call => c.client - 1) past.calls h.team.owner_lt).map _

omit H in
/-- If the records are samples, the calls have brought the samples interleaved. -/
theorem exists_order {threads each : Nat} {sample : Nat → Nat → Bytes}
    (hrecords : records = (List.range threads).map fun t => (List.range each).map (sample t)) :
    ∃ order, Interleaves threads each order ∧
      order.map (fun x => sample x.1 x.2) = past.calls.map fun c => c.request.payload := by
  have hlength : w.appenders.length = threads := by
    rw [← List.length_map Appender.all, h.whole, hrecords, List.length_map, List.length_range]
  refine exists_interleaving (fun c : Call => c.client - 1) _ sample past.calls
    (hlength ▸ h.team.owner_lt) fun t ht => ?_
  rw [h.team.filter_owner t]
  exact h.brought hthrough (by rw [hrecords, List.getElem?_map, List.getElem?_range ht]; rfl)

/-- The log is what the calls have brought. -/
theorem log_eq : past.log = (past.calls.map fun c => c.request.payload).flatten :=
  (log_of_idle H.opened h.reached (h.unfailing H) (h.idle hthrough)).1

/-- The log goes on to its owner. -/
theorem handed : Handed device settings clients limit past m₀ w.machine :=
  ⟨H.opened, H.faultless, H.room, h.reached, h.idle hthrough, H.owner, h.going H, h.becomes⟩

/-- What will have been done when the writer is through hangs on the records alone, and not on the turns. -/
theorem due_eq : w.machine.due (contents device) past.log past.deviceCalls =
    Prompt.append
      { blockSize := Device.blockSize device
        slots := settings.cacheBlocks
        initial := contents device }
      (past.calls.map fun c => c.request.payload).flatten := by
  rw [(appending_of_reaches H.opened h.reached (h.unfailing H) h.appends).due, due_start H.opened,
    h.log_eq H hthrough]

end Works

end BlockLog
