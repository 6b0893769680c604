import BlockLog.Proofs.Log.Solo

/-! A log to which any number of clients do nothing but append. Whoever has the lock and whenever the
    writer takes its steps, what will have been done when the writer is through hangs only on the bytes
    that have been pushed: it is what a prompt log does for one append of them all.

        clients:   ─ a₁ ─ b₁ ─ a₂ ─ ─ b₂ ─       pushed, in whatever order
        log:       ├ a₁ ┼ b₁ ┼ a₂ ┼ b₂ ┤         one append of a₁ b₁ a₂ b₂ is due -/

namespace BlockLog

namespace History

/-- No call is given but appends. -/
def AppendsOnly {δ : Type} (past : History δ) : Prop :=
  ∀ request ∈ past.requests, request.isFlushing = false

end History

namespace Machine

open LawfulDevice

variable {δ : Type} [Device δ] [LawfulDevice δ] {initial : Bytes} {m m' m₁ : Machine δ} {a : Account}
  {t : Nat} {p p' : ClientPoint} {past : History δ} {ρ : Prompt} {calls : List DeviceCall}

omit [LawfulDevice δ] in
/-- A log that has just been opened has done nothing, and nothing is due. -/
theorem due_start {device : δ} {settings : Settings} {clients : Nat} {m₀ : Machine δ}
    (h₀ : open? device settings clients = .ok m₀) (initial : Bytes) :
    m₀.due initial [] [] =
      { blockSize := Device.blockSize device, slots := settings.cacheBlocks, initial } := by
  obtain ⟨ring, cache, hring, hcache, rfl⟩ := open?_eq_ok h₀
  obtain ⟨-, hblockSize, -, htail, -⟩ := Ring.new_eq_ok hring
  obtain ⟨-, -, hslots, hnone⟩ := Cache.new_eq_ok hcache
  have hstop : ([] ++ Bytes.zeros 0 : Bytes).length / ring.blockSize = 0 := Nat.zero_div _
  have hnext : (start device ring cache clients).nextWrite = 0 := by
    show ring.tailOffset / ring.blockSize + 0 = 0
    rw [htail, Nat.zero_div]
  have hdue : (start device ring cache clients).due initial [] [] =
      ((start device ring cache clients).soFar initial [] []).writeBlocks ([] ++ Bytes.zeros 0) 0 0 := by
    rw [due, hnext]
    exact congrArg (Prompt.writeBlocks _ _ 0) hstop
  rw [hdue, Prompt.writeBlocks_self, ← hblockSize, ← hslots]
  apply Prompt.ext <;> try rfl
  funext b
  exact hnone b

/-- A step in an append makes the append of what it pushes due. -/
theorem ClientStep.due_append (h : Inv initial m a) (hsound : Sound m)
    (hp : m.clients[t]? = some p) (hs : ClientStep m t p p' m₁) {data : Bytes}
    (hreq : p.request? = some (.append data)) :
    m.dueNext m₁ t initial a.log calls =
      (m.due initial a.log calls).append (m.pushes (.step (.client t))) := by
  have hquiet : m.pushes (.step (.client t)) = [] → m.deviceCall? (.step (.client t)) = none →
      Undisturbed m m₁ → m.dueNext m₁ t initial a.log calls =
        (m.due initial a.log calls).append (m.pushes (.step (.client t))) := by
    intro hpush hcall hsame
    rw [dueNext_quiet hpush hcall hsame, hpush, Prompt.append_nil]
  have hpurpose : ∀ purpose : Purpose, some purpose.request ≠ some (.append data) := by
    intro purpose heq
    cases purpose <;> cases heq
  cases hs with
  | admitAppend =>
    exact hquiet (pushes_eq_nil hp (.inl rfl)) (deviceCall?_client_eq_none hp rfl)
      (.of_parts rfl rfl)
  | refuseAppend _ failed => exact absurd failed hsound.not_failed
  | feedRefused _ _ _ failed => exact absurd failed hsound.not_failed
  | feedNothing _ feeds =>
    exact hquiet (pushes_of_feeds_eq_nil hp feeds (.inl rfl)) (deviceCall?_of_feeds hp feeds)
      (.of_parts rfl rfl)
  | feedBlocked _ feeds _ _ full =>
    exact hquiet (pushes_of_feeds_eq_nil hp feeds (.inr full)) (deviceCall?_of_feeds hp feeds)
      (.of_parts rfl rfl)
  | feedPart _ feeds | feedAll _ feeds =>
    refine Eq.trans (due_feed h hsound hp feeds (.of_parts rfl rfl)) ?_
    rw [pushes_of_feeds hp feeds hsound.failure]
  | admitFlush | refuseFlush | flushNothing | flushPads | flushWaits | flushFails | flushDone =>
    exact absurd hreq (hpurpose _)
  | _ => cases hreq

/-- Clients do nothing but append. When the writer is through with what is buffered, the log will have
    done what the prompt log `ρ` does for one append of what has been pushed. -/
structure Appending (initial : Bytes) (ρ : Prompt) (past : History δ) (m : Machine δ) : Prop where
  appends : ∀ (t : Nat) (p : ClientPoint) (request : Request), m.clients[t]? = some p →
    p.request? = some request → request.isFlushing = false
  going : m.state.stop = false
  due : m.due initial past.log past.deviceCalls = ρ.append past.log

omit [LawfulDevice δ] in
theorem Appending.submit (h : Appending initial ρ past m) {request : Request}
    (hm : m.submit? t request = some m') (happend : request.isFlushing = false) :
    Appending initial ρ (⟨m, .submit t request, m'⟩ :: past) m' := by
  obtain ⟨last, -, -, hcase⟩ := submit?_cases hm
  have hsame : Undisturbed m m' := by
    rcases hcase with ⟨-, rfl⟩ | ⟨-, -, rfl⟩ <;> exact .of_parts rfl rfl
  exact
    { appends := fun u p given hq hgiven => by
        rcases (submit?_placed hm).cases hq with ⟨-, rfl⟩ | ⟨-, hq⟩
        · rw [Request.request?_entry] at hgiven
          cases hgiven
          exact happend
        · exact h.appends u p given hq hgiven
      going := by
        rw [(submit?_frame hm).1]
        exact h.going
      due := by
        rw [History.log_submit, History.deviceCalls_submit, hsame.due_eq]
        exact h.due }

theorem Appending.writerStep {flushed : Nat} (h : Appending initial ρ past m)
    (hinv : Inv initial m ⟨past.log, past.durable, flushed⟩) (hsound : Sound m)
    (hd : ∀ call, m.deviceCall? (.step .writer) = some call → call.Succeeded)
    (hs : WriterStep m m') : Appending initial ρ (⟨m, .step .writer, m'⟩ :: past) m' where
  appends u q request hq hreq := by
    obtain ⟨p, hp, hw⟩ := hs.woken_from hq
    rw [hw.request?] at hreq
    exact h.appends u p request hp hreq
  going := by
    rw [hs.stop_eq]
    exact h.going
  due := by
    rw [History.log_writer, ← h.due]
    exact hs.due_eq hinv.consistent hsound hd

theorem Appending.clientStep {flushed : Nat} (h : Appending initial ρ past m)
    (hinv : Inv initial m ⟨past.log, past.durable, flushed⟩) (hsound : Sound m)
    (hp : m.clients[t]? = some p) (hs : ClientStep m t p p' m₁) :
    Appending initial ρ (⟨m, .step (.client t), m₁.setClient t p'⟩ :: past) (m₁.setClient t p') := by
  obtain ⟨request, hreq⟩ := hs.request?_ne_none
  have happend := h.appends t p request hp hreq
  cases request with
  | append data =>
    exact
      { appends := fun u q given hq hgiven => by
          rcases (hs.placed hp).cases hq with ⟨-, rfl⟩ | ⟨-, hq⟩
          · rcases hs.request? with ⟨reply, rfl⟩ | hsame
            · cases hgiven
            · rw [hsame, hreq] at hgiven
              cases hgiven
              exact happend
          · exact h.appends u q given hq hgiven
        going := by
          rcases hs.stop_eq with hsame | ⟨-, -, flushed, rfl⟩
          · exact hsame.trans h.going
          · rcases hs.request? with ⟨reply, hidle⟩ | hsame
            · cases hidle
            · rw [hreq] at hsame
              cases hsame
        due := by
          refine (hs.due_append hinv hsound hp hreq).trans ?_
          rw [h.due, Prompt.append_append]
          rfl }
  | _ => cases happend

theorem appending_of_reaches {device : δ} {settings : Settings} {clients : Nat} {m₀ : Machine δ}
    (h₀ : open? device settings clients = .ok m₀) (h : Reaches m₀ past m) (hu : past.Unfailing)
    (honly : past.AppendsOnly) :
    Appending (contents device) (m₀.due (contents device) [] []) past m := by
  induction h with
  | start =>
    obtain ⟨ring, cache, -, -, rfl⟩ := open?_eq_ok h₀
    refine ⟨fun t p request hp hreq => ?_, rfl, (Prompt.append_nil _).symm⟩
    cases List.eq_of_mem_replicate (List.mem_of_getElem? hp)
    cases hreq
  | @move past m m' move reached next ih =>
    obtain ⟨hbefore, hd⟩ := hu.cons
    have happending := ih hbefore fun request hr => honly request (List.mem_append_left _ hr)
    obtain ⟨⟨flushed, hinv⟩, -⟩ := inv_of_reaches h₀ reached
    have hsound := (sound_of_reaches h₀ reached hbefore).1
    match move, next with
    | .submit t request, next =>
      exact happending.submit next
        (honly request (List.mem_append_right _ (List.mem_singleton.2 rfl)))
    | .step .writer, next => exact happending.writerStep hinv hsound hd (writerStep?_cases next)
    | .step (.client t), next =>
      obtain ⟨p, p', m₁, hp, hs, rfl⟩ := clientStep?_cases next
      exact happending.clientStep hinv hsound hp hs
  | faults d _ _ ih =>
    obtain ⟨happends, hgoing, hdue⟩ := ih hu honly
    exact ⟨happends, hgoing, hdue⟩

end Machine

end BlockLog
