import BlockLog.Proofs.Log.History
import BlockLog.Proofs.Log.Transition

/-! Who holds which lock, read off the points of the threads. The append lock is held from being let in
    to the end of the append or the flush, the state lock between two steps of a read, the device lock
    by a writer whose write is under way. Since a lock has one holder, at most one client stands at
    such a point. A close is alone: it starts when every other client is idle, and none starts after
    it. -/

namespace BlockLog

/-- The client holds the append lock at this point. -/
def ClientPoint.holdsAppend : ClientPoint → Bool
  | .appendAdmitted _ | .appendWaiting .. | .flushAdmitted _ | .flushWaiting .. => true
  | _ => false

/-- The client holds the state lock at this point. -/
def ClientPoint.holdsState : ClientPoint → Bool
  | .reading .. => true
  | _ => false

/-- The client is closing the log. -/
def ClientPoint.isClosing : ClientPoint → Bool
  | .flushCalled .close | .flushAdmitted .close | .flushWaiting .close _ _ => true
  | .stopping _ | .stopped _ | .joining _ | .syncing _ _ => true
  | _ => false

@[simp] theorem Purpose.holdsAppend_next (purpose : Purpose) (flushed : Except LogError Nat) :
    (purpose.next flushed).holdsAppend = false := by
  cases purpose <;> cases flushed <;> simp only [Purpose.next] <;> try rfl
  split <;> rfl

@[simp] theorem Purpose.holdsState_next (purpose : Purpose) (flushed : Except LogError Nat) :
    (purpose.next flushed).holdsState = false := by
  cases purpose <;> cases flushed <;> simp only [Purpose.next] <;> try rfl
  split <;> rfl

@[simp] theorem WriterPoint.isInFlight_wakeForItem (w : WriterPoint) :
    w.wakeForItem.isInFlight = w.isInFlight := by
  cases w <;> rfl

/-- The same point, of a client that may have been woken. -/
inductive ClientPoint.Woken : ClientPoint → ClientPoint → Prop
  | same {p} : Woken p p
  | append {data rest offset asleep} :
    Woken (.appendWaiting data rest offset asleep) (.appendWaiting data rest offset false)
  | flush {purpose pad asleep} :
    Woken (.flushWaiting purpose pad asleep) (.flushWaiting purpose pad false)

namespace ClientPoint

theorem woken_wakeForSpace (p : ClientPoint) : Woken p p.wakeForSpace := by
  cases p with
  | appendWaiting => exact .append
  | _ => exact .same

theorem woken_wakeForPop (drained : Bool) (p : ClientPoint) : Woken p (p.wakeForPop drained) := by
  cases drained with
  | false => exact woken_wakeForSpace p
  | true =>
    cases p with
    | appendWaiting => exact .append
    | flushWaiting => exact .flush
    | _ => exact .same

section

variable {p q : ClientPoint} (h : Woken p q)
include h

theorem Woken.holdsAppend : q.holdsAppend = p.holdsAppend := by
  cases h <;> rfl

theorem Woken.holdsState : q.holdsState = p.holdsState := by
  cases h <;> rfl

theorem Woken.isClosing : q.isClosing = p.isClosing := by
  cases h with
  | flush => rename_i purpose _ _; cases purpose <;> rfl
  | _ => rfl

theorem Woken.isIdle : q.isIdle = p.isIdle := by
  cases h <;> rfl

end

end ClientPoint

/-- After the flush of a close comes the rest of the close. -/
theorem Purpose.isClosing_next {purpose : Purpose} {flushed : Except LogError Nat}
    (h : (purpose.next flushed).isClosing = true) : purpose = .close := by
  cases purpose with
  | close => rfl
  | flush => cases flushed <;> cases h
  | read offset len =>
    cases flushed with
    | error e => cases h
    | ok size =>
      simp only [Purpose.next] at h
      split at h <;> cases h

/-! ### One client moves -/

/-- Client `t` is at `p` in the second list, and the others are where they are in the first. -/
structure Placed (before after : List ClientPoint) (t : Nat) (p : ClientPoint) : Prop where
  self : after[t]? = some p
  other : ∀ {u : Nat}, u ≠ t → after[u]? = before[u]?
  length : after.length = before.length

theorem Placed.set {before : List ClientPoint} {t : Nat} {p : ClientPoint} (p' : ClientPoint)
    (hp : before[t]? = some p) : Placed before (before.set t p') t p' where
  self := List.getElem?_set_self (List.getElem?_eq_some_iff.1 hp).1
  other hut := List.getElem?_set_ne (Ne.symm hut)
  length := List.length_set

theorem Placed.cases {before after : List ClientPoint} {t u : Nat} {p q : ClientPoint}
    (h : Placed before after t p) (hq : after[u]? = some q) :
    (u = t ∧ q = p) ∨ (u ≠ t ∧ before[u]? = some q) := by
  by_cases hut : u = t
  · rw [hut, h.self] at hq
    exact .inl ⟨hut, (Option.some.inj hq).symm⟩
  · rw [h.other hut] at hq
    exact .inr ⟨hut, hq⟩

/-! ### One lock -/

/-- A lock is held by the one client that stands at a point where it is, or by nobody. -/
structure Held (holds : ClientPoint → Bool) (clients : List ClientPoint) (lock : Option Actor) :
    Prop where
  holder : ∀ t p, clients[t]? = some p → (holds p = true ↔ lock = some (.client t))
  client : ∀ a, lock = some a → ∃ t p, clients[t]? = some p ∧ a = .client t

/-- What a step of client `t` may do with a lock: leave it alone, take it if it is free, or release it. -/
inductive Handover (t : Nat) (lock : Option Actor) : (held holds : Bool) → Option Actor → Prop
  | keep (b : Bool) : Handover t lock b b lock
  | take (free : lock = none) : Handover t lock false true (some (.client t))
  | release : Handover t lock true false none

theorem Held.placed {holds : ClientPoint → Bool} {before after : List ClientPoint}
    {lock lock' : Option Actor} {t : Nat} {p p' : ClientPoint} (h : Held holds before lock)
    (hp : before[t]? = some p) (hplaced : Placed before after t p')
    (hh : Handover t lock (holds p) (holds p') lock') : Held holds after lock' := by
  have hmine := h.holder t p hp
  generalize hb : holds p = b at hh hmine
  generalize hb' : holds p' = b' at hh
  cases hh with
  | keep =>
    refine ⟨fun u q hu => ?_, fun a ha => ?_⟩
    · rcases hplaced.cases hu with ⟨rfl, rfl⟩ | ⟨-, hq⟩
      · rw [hb']
        exact hmine
      · exact h.holder u q hq
    · obtain ⟨u, q, hu, hau⟩ := h.client a ha
      by_cases hut : u = t
      · exact ⟨t, p', hplaced.self, hut ▸ hau⟩
      · exact ⟨u, q, (hplaced.other hut).trans hu, hau⟩
  | take free =>
    refine ⟨fun u q hu => ?_, fun a ha => ⟨t, p', hplaced.self, (Option.some.inj ha).symm⟩⟩
    rcases hplaced.cases hu with ⟨rfl, rfl⟩ | ⟨hut, hq⟩
    · exact ⟨fun _ => rfl, fun _ => hb'⟩
    · have hnone := h.holder u q hq
      rw [free] at hnone
      constructor
      · intro hheld
        cases hnone.1 hheld
      · intro heq
        cases heq
        exact absurd rfl hut
  | release =>
    have hlock := hmine.1 rfl
    refine ⟨fun u q hu => ?_, fun a ha => by cases ha⟩
    rcases hplaced.cases hu with ⟨rfl, rfl⟩ | ⟨hut, hq⟩
    · rw [hb']
      simp
    · have hsome := h.holder u q hq
      constructor
      · intro hheld
        have := hsome.1 hheld
        rw [hlock] at this
        cases this
        exact absurd rfl hut
      · intro heq
        cases heq

theorem Held.map {holds : ClientPoint → Bool} {clients : List ClientPoint} {lock : Option Actor}
    {wake : ClientPoint → ClientPoint} (h : Held holds clients lock)
    (hw : ∀ p, holds (wake p) = holds p) : Held holds (clients.map wake) lock where
  holder t p hp := by
    rw [List.getElem?_map] at hp
    obtain ⟨q, hq, rfl⟩ := Option.map_eq_some_iff.1 hp
    rw [hw q]
    exact h.holder t q hq
  client a ha := by
    obtain ⟨t, p, hp, hat⟩ := h.client a ha
    exact ⟨t, wake p, by rw [List.getElem?_map, hp]; rfl, hat⟩

namespace Machine

variable {δ : Type}

/-- Locks are where the points of the threads say, and a close is alone. -/
structure Exclusive (m : Machine δ) : Prop where
  append : Held ClientPoint.holdsAppend m.clients m.locks.append
  state : Held ClientPoint.holdsState m.clients m.locks.state
  device : m.locks.device = if m.writer.isInFlight then some .writer else none
  closing : ∀ (t : Nat) (p : ClientPoint), m.clients[t]? = some p → p.isClosing = true →
    m.closed = true ∧ ∀ (u : Nat) (q : ClientPoint), u ≠ t → m.clients[u]? = some q → q.isIdle = true

/-- Two clients never hold the append lock at once. -/
theorem Exclusive.append_unique {m : Machine δ} (h : m.Exclusive) {t u : Nat} {p q : ClientPoint}
    (hp : m.clients[t]? = some p) (hq : m.clients[u]? = some q) (hhp : p.holdsAppend = true)
    (hhq : q.holdsAppend = true) : u = t := by
  have ht := (h.append.holder t p hp).1 hhp
  have hu := (h.append.holder u q hq).1 hhq
  rw [ht] at hu
  cases hu
  rfl

/-! ### Steps of a client -/

section

variable [Device δ] {m m₁ : Machine δ} {t : Nat} {p p' : ClientPoint}

/-- A step of a client comes from a point that is not idle. -/
theorem ClientStep.not_idle (h : ClientStep m t p p' m₁) : p.isIdle = false := by
  cases h with
  | feedNothing _ feeds => cases feeds <;> rfl
  | feedRefused _ feeds => cases feeds <;> rfl
  | feedBlocked _ feeds => cases feeds <;> rfl
  | feedPart _ feeds => cases feeds <;> rfl
  | feedAll _ feeds => cases feeds <;> rfl
  | _ => rfl

/-- A step of a client moves no other client. -/
theorem ClientStep.clients_eq (h : ClientStep m t p p' m₁) : m₁.clients = m.clients := by
  cases h <;> rfl

theorem ClientStep.placed (hp : m.clients[t]? = some p) (h : ClientStep m t p p' m₁) :
    Placed m.clients (m₁.setClient t p').clients t p' := by
  show Placed _ (m₁.clients.set t p') _ _
  rw [h.clients_eq]
  exact .set p' hp

theorem ClientStep.closed_eq (h : ClientStep m t p p' m₁) : m₁.closed = m.closed := by
  cases h <;> rfl

theorem ClientStep.deviceLock_eq (h : ClientStep m t p p' m₁) :
    m₁.locks.device = m.locks.device ∧ m₁.writer.isInFlight = m.writer.isInFlight := by
  cases h with
  | feedPart | feedAll =>
    refine ⟨rfl, ?_⟩
    show (if _ then m.writer.wakeForItem else m.writer).isInFlight = _
    split
    · exact m.writer.isInFlight_wakeForItem
    · rfl
  | flushPads | announceStop => exact ⟨rfl, m.writer.isInFlight_wakeForItem⟩
  | _ => exact ⟨rfl, rfl⟩

theorem ClientStep.appendLock (h : ClientStep m t p p' m₁) :
    Handover t m.locks.append p.holdsAppend p'.holdsAppend m₁.locks.append := by
  cases h with
  | admitAppend free => exact .take free
  | refuseAppend => exact .release
  | feedNothing _ feeds => cases feeds <;> exact .release
  | feedRefused _ feeds => cases feeds <;> exact .release
  | feedBlocked _ feeds => cases feeds <;> exact .keep true
  | feedPart _ feeds => cases feeds <;> exact .keep true
  | feedAll _ feeds => cases feeds <;> exact .release
  | admitFlush free => exact .take free
  | refuseFlush => rw [Purpose.holdsAppend_next]; exact .release
  | flushNothing => rw [Purpose.holdsAppend_next]; exact .release
  | flushPads => exact .keep true
  | flushWaits => exact .keep true
  | flushFails => rw [Purpose.holdsAppend_next]; exact .release
  | flushDone => rw [Purpose.holdsAppend_next]; exact .release
  | _ => exact .keep false

theorem ClientStep.stateLock (h : ClientStep m t p p' m₁) :
    Handover t m.locks.state p.holdsState p'.holdsState m₁.locks.state := by
  cases h with
  | feedNothing _ feeds => cases feeds <;> exact .keep false
  | feedRefused _ feeds => cases feeds <;> exact .keep false
  | feedBlocked _ feeds => cases feeds <;> exact .keep false
  | feedPart _ feeds => cases feeds <;> exact .keep false
  | feedAll _ feeds => cases feeds <;> exact .keep false
  | refuseFlush => rw [Purpose.holdsState_next]; exact .keep false
  | flushNothing => rw [Purpose.holdsState_next]; exact .keep false
  | flushFails => rw [Purpose.holdsState_next]; exact .keep false
  | flushDone => rw [Purpose.holdsState_next]; exact .keep false
  | beginRead unlocked => exact .take unlocked
  | readHit => exact .keep true
  | readMiss => exact .keep true
  | readFails => exact .release
  | readDone => exact .release
  | _ => exact .keep false

/-- No step starts a close. -/
theorem ClientStep.isClosing (h : ClientStep m t p p' m₁) (hc : p'.isClosing = true) :
    p.isClosing = true := by
  cases h with
  | @admitFlush purpose => cases purpose <;> first | rfl | cases hc
  | @flushPads purpose => cases purpose <;> first | rfl | cases hc
  | @flushWaits purpose => cases purpose <;> first | rfl | cases hc
  | refuseFlush => rw [Purpose.isClosing_next hc]; rfl
  | flushNothing => rw [Purpose.isClosing_next hc]; rfl
  | flushFails => rw [Purpose.isClosing_next hc]; rfl
  | flushDone => rw [Purpose.isClosing_next hc]; rfl
  | askToStop => rfl
  | announceStop => rfl
  | join => rfl
  | _ => cases hc

theorem Exclusive.clientStep (hx : m.Exclusive) (hp : m.clients[t]? = some p)
    (h : ClientStep m t p p' m₁) : (m₁.setClient t p').Exclusive where
  append := hx.append.placed hp (h.placed hp) h.appendLock
  state := hx.state.placed hp (h.placed hp) h.stateLock
  device := by
    show m₁.locks.device = if m₁.writer.isInFlight then _ else _
    rw [h.deviceLock_eq.1, h.deviceLock_eq.2, hx.device]
  closing u q hu hc := by
    show m₁.closed = true ∧ _
    rw [h.closed_eq]
    rcases (h.placed hp).cases hu with ⟨rfl, rfl⟩ | ⟨hut, hq⟩
    · obtain ⟨hcl, hothers⟩ := hx.closing u p hp (h.isClosing hc)
      exact ⟨hcl, fun v r hne hr => hothers v r hne (((h.placed hp).other hne).symm.trans hr)⟩
    · -- beside a client that is closing nobody takes a step
      have hidle := (hx.closing u q hq hc).2 t p (Ne.symm hut) hp
      rw [h.not_idle] at hidle
      cases hidle

end

/-! ### Steps of the writer -/

section

variable {m m' : Machine δ}

/-- Waking clients changes nothing about who holds what. -/
theorem Exclusive.wake (hx : m.Exclusive) {wake : ClientPoint → ClientPoint}
    (hw : ∀ p, ClientPoint.Woken p (wake p)) (hclients : m'.clients = m.clients.map wake)
    (happend : m'.locks.append = m.locks.append) (hstate : m'.locks.state = m.locks.state)
    (hclosed : m'.closed = m.closed)
    (hdevice : m'.locks.device = if m'.writer.isInFlight then some .writer else none) :
    m'.Exclusive where
  append := by
    rw [hclients, happend]
    exact hx.append.map fun p => (hw p).holdsAppend
  state := by
    rw [hclients, hstate]
    exact hx.state.map fun p => (hw p).holdsState
  device := hdevice
  closing t p hp hc := by
    rw [hclients, List.getElem?_map] at hp
    obtain ⟨q, hq, rfl⟩ := Option.map_eq_some_iff.1 hp
    rw [(hw q).isClosing] at hc
    obtain ⟨hcl, hothers⟩ := hx.closing t q hq hc
    refine ⟨hclosed.trans hcl, fun u r hne hr => ?_⟩
    rw [hclients, List.getElem?_map] at hr
    obtain ⟨s, hs, rfl⟩ := Option.map_eq_some_iff.1 hr
    rw [(hw s).isIdle]
    exact hothers u s hne hs

theorem LoopStep.frame (h : LoopStep m m') : m'.clients = m.clients ∧ m'.locks = m.locks ∧
    m'.closed = m.closed ∧ m'.device = m.device ∧ m'.writer.isInFlight = false := by
  cases h <;> exact ⟨rfl, rfl, rfl, rfl, rfl⟩

variable [Device δ]

/-- A step of the writer wakes clients at most. -/
theorem WriterStep.clients (h : WriterStep m m') : ∃ wake : ClientPoint → ClientPoint,
    (∀ p, ClientPoint.Woken p (wake p)) ∧ m'.clients = m.clients.map wake := by
  cases h with
  | loop _ _ loop => exact ⟨id, fun _ => .same, by rw [loop.frame.1, List.map_id]⟩
  | complete _ _ loop => exact ⟨_, ClientPoint.woken_wakeForPop _, loop.frame.1⟩
  | announce =>
    exact ⟨_, ClientPoint.woken_wakeForPop true, List.map_map⟩
  | _ => exact ⟨id, fun _ => .same, (List.map_id _).symm⟩

theorem WriterStep.exists_woken (h : WriterStep m m') {t : Nat} {p : ClientPoint}
    (hp : m.clients[t]? = some p) : ∃ q, m'.clients[t]? = some q ∧ ClientPoint.Woken p q := by
  obtain ⟨wake, hw, hclients⟩ := h.clients
  exact ⟨wake p, by rw [hclients, List.getElem?_map, hp]; rfl, hw p⟩

theorem WriterStep.woken_from (h : WriterStep m m') {t : Nat} {q : ClientPoint}
    (hq : m'.clients[t]? = some q) : ∃ p, m.clients[t]? = some p ∧ ClientPoint.Woken p q := by
  obtain ⟨wake, hw, hclients⟩ := h.clients
  rw [hclients, List.getElem?_map] at hq
  obtain ⟨p, hp, rfl⟩ := Option.map_eq_some_iff.1 hq
  exact ⟨p, hp, hw p⟩

theorem WriterStep.frame (h : WriterStep m m') : m'.locks.append = m.locks.append ∧
    m'.locks.state = m.locks.state ∧ m'.closed = m.closed := by
  cases h with
  | loop _ _ loop => rw [loop.frame.2.1]; exact ⟨rfl, rfl, loop.frame.2.2.1⟩
  | complete _ _ loop => rw [loop.frame.2.1]; exact ⟨rfl, rfl, loop.frame.2.2.1⟩
  | _ => exact ⟨rfl, rfl, rfl⟩

theorem Exclusive.writerStep (hx : m.Exclusive) (h : WriterStep m m') : m'.Exclusive := by
  obtain ⟨wake, hw, hclients⟩ := h.clients
  obtain ⟨happend, hstate, hclosed⟩ := h.frame
  refine hx.wake hw hclients happend hstate hclosed ?_
  have hd := hx.device
  cases h with
  | loop ready _ loop =>
    rw [ready] at hd
    rw [loop.frame.2.1, loop.frame.2.2.2.2, hd]
    rfl
  | complete wrote _ loop =>
    rw [wrote] at hd
    rw [loop.frame.2.1, loop.frame.2.2.2.2]
    exact hd
  | enter => rfl
  | done => rfl
  | failed => rfl
  | panicked => rfl
  | fail wrote => rw [wrote] at hd; exact hd
  | record leaving => rw [leaving] at hd; exact hd
  | announce announcing => rw [announcing] at hd; exact hd

end

/-! ### Runs -/

section

variable [Device δ] {m m' : Machine δ}

omit [Device δ] in
theorem submit?_placed {t : Nat} {request : Request} (h : m.submit? t request = some m') :
    Placed m.clients m'.clients t request.entry := by
  obtain ⟨last, hp, -, hcase⟩ := submit?_cases h
  rcases hcase with ⟨-, rfl⟩ | ⟨-, -, rfl⟩ <;> exact .set _ hp

omit [Device δ] in
theorem Exclusive.submit (hx : m.Exclusive) {t : Nat} {request : Request}
    (h : m.submit? t request = some m') : m'.Exclusive := by
  have hplaced := submit?_placed h
  obtain ⟨last, hp, hopen, hcase⟩ := submit?_cases h
  have hentry : request.entry.holdsAppend = false ∧ request.entry.holdsState = false := by
    cases request <;> exact ⟨rfl, rfl⟩
  have happend : Held ClientPoint.holdsAppend m'.clients m.locks.append :=
    hx.append.placed hp hplaced (by rw [hentry.1]; exact .keep false)
  have hstate : Held ClientPoint.holdsState m'.clients m.locks.state :=
    hx.state.placed hp hplaced (by rw [hentry.2]; exact .keep false)
  -- in a log that is still open nobody is closing
  have hnone : ∀ (u : Nat) (q : ClientPoint), m.clients[u]? = some q → q.isClosing = false := by
    intro u q hu
    by_contra hc
    have := (hx.closing u q hu (Bool.not_eq_false _ ▸ hc)).1
    rw [hopen] at this
    cases this
  have hnew : ∀ (u : Nat) (q : ClientPoint), m'.clients[u]? = some q → q.isClosing = true →
      u = t ∧ q = request.entry := by
    intro u q hu hc
    rcases hplaced.cases hu with hmine | ⟨-, hq⟩
    · exact hmine
    · rw [hnone u q hq] at hc
      cases hc
  rcases hcase with ⟨hne, rfl⟩ | ⟨rfl, hidle, rfl⟩
  · refine ⟨happend, hstate, hx.device, fun u q hu hc => ?_⟩
    obtain ⟨-, rfl⟩ := hnew u q hu hc
    cases request with
    | close => exact absurd rfl hne
    | _ => cases hc
  · refine ⟨happend, hstate, hx.device, fun u q hu hc => ⟨rfl, fun v r hne hr => ?_⟩⟩
    obtain ⟨rfl, -⟩ := hnew u q hu hc
    exact hidle r (List.mem_of_getElem? ((hplaced.other hne).symm.trans hr))

omit [Device δ] in
theorem exclusive_start (device : δ) (ring : Ring) (cache : Cache) (clients : Nat) :
    (start device ring cache clients).Exclusive := by
  have hidle : ∀ (t : Nat) (p : ClientPoint),
      (List.replicate clients (ClientPoint.idle none))[t]? = some p → p = .idle none :=
    fun t p hp => List.eq_of_mem_replicate (List.mem_of_getElem? hp)
  refine ⟨⟨?_, fun a ha => by cases ha⟩, ⟨?_, fun a ha => by cases ha⟩, rfl, ?_⟩
  · intro t p hp
    rw [hidle t p hp]
    constructor <;> intro h <;> cases h
  · intro t p hp
    rw [hidle t p hp]
    constructor <;> intro h <;> cases h
  · intro t p hp hc
    rw [hidle t p hp] at hc
    cases hc

end

end Machine

end BlockLog
