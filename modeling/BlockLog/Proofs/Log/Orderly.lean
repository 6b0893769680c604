import BlockLog.Proofs.Log.Liveness
import BlockLog.Proofs.Ring.Operation

/-! The calls of the ring that the threads of a log make, and the order that the threads keep among
    each other, as far as the ring goes. The block in the writer's hands is the oldest of the ring
    from the moment when it is copied out to the moment when it is let go of; for whoever lets bytes
    in meanwhile lets them in behind it. A flush that waits finds its own padding when it is woken;
    for whoever waits has the append lock.

        writer     oldest ────────▶ device write ────────▶ dropOldest
        clients              push       fillUp     push                  bytes only come in

        flush      fillUp ──────────────────────────────▶ takeBack
        writer             oldest         dropOldest                     nobody else pushes

    None of this looks at the device or at the cache. -/

namespace BlockLog

/-- The padding with which a client waits for the writer. -/
def ClientPoint.pad? : ClientPoint → Option Nat
  | .flushWaiting _ pad _ => some pad
  | _ => none

@[simp] theorem Purpose.pad?_next (purpose : Purpose) (flushed : Except LogError Nat) :
    (purpose.next flushed).pad? = none := by
  cases purpose <;> cases flushed <;> simp only [Purpose.next] <;> try rfl
  split <;> rfl

theorem ClientPoint.Woken.pad? {p q : ClientPoint} (h : ClientPoint.Woken p q) : q.pad? = p.pad? := by
  cases h <;> rfl

theorem ClientPoint.holdsAppend_of_pad? {p : ClientPoint} {pad : Nat} (h : p.pad? = some pad) :
    p.holdsAppend = true := by
  cases p with
  | flushWaiting => rfl
  | _ => cases h

/-! ### Calls -/

/-- The calls at the head of the writer's loop. -/
def Ring.takeCalls (r : Ring) : List Ring.Operation := if r.blockReady then [.oldest] else []

namespace LogState

/-- `length`, checked. -/
def length? (s : LogState) : Option Nat := minus? s.ring.endOffset s.pad

/-- The calls of a section that has `rest` to push. -/
def pushCalls (s : LogState) (rest : Bytes) : List Ring.Operation :=
  if rest ≠ [] ∧ s.failure = none ∧ s.ring.free ≠ 0 then [.push rest] else []

theorem pushCalls_eq_nil {s : LogState} {rest : Bytes}
    (h : rest = [] ∨ s.failure ≠ none ∨ s.ring.free = 0) : s.pushCalls rest = [] :=
  if_neg fun hn => by rcases h with h | h | h; exacts [hn.1 h, h hn.2.1, hn.2.2 h]

/-- The calls of a section that starts a flush. -/
def fillCalls (s : LogState) : List Ring.Operation :=
  if s.failure = none ∧ s.ring.filled ≠ 0 then [.fillUp] else []

/-- The calls of a section that goes on with a flush. -/
def settleCalls (s : LogState) (pad : Nat) : List Ring.Operation :=
  if s.failure = none ∧ s.ring.filled = 0 ∧ 0 < pad then [.takeBack pad] else []

/-- The same ring, and the same flush under way. -/
structure SameRing (s s' : LogState) : Prop where
  ring : s'.ring = s.ring
  pad : s'.pad = s.pad
  draining : s'.draining = s.draining
  failure : s'.failure = s.failure

/-- What is then the same, of a state. -/
def ringParts (s : LogState) : Ring × Nat × Bool × Option Degradation :=
  (s.ring, s.pad, s.draining, s.failure)

theorem SameRing.of_parts {s s' : LogState} (h : s'.ringParts = s.ringParts) : SameRing s s' := by
  simp only [ringParts, Prod.mk.injEq] at h
  obtain ⟨hring, hpad, hdraining, hfailure⟩ := h
  exact ⟨hring, hpad, hdraining, hfailure⟩

end LogState

namespace Machine

variable {δ : Type}

/-- The calls of the ring that a move makes, in order. -/
def ringCalls (m : Machine δ) : Move → List Ring.Operation
  | .step .writer =>
    match m.writer with
    | .ready => m.state.ring.takeCalls
    | .wrote _ _ (.ok ()) => .dropOldest :: m.state.ring.dropOldest.takeCalls
    | _ => []
  | .step (.client t) =>
    match m.clients[t]? with
    | some (.appendAdmitted data) => m.state.pushCalls data
    | some (.appendWaiting _ rest _ _) => m.state.pushCalls rest
    | some (.flushAdmitted _) => m.state.fillCalls
    | some (.flushWaiting _ pad _) => m.state.settleCalls pad
    | _ => []
  | _ => []

end Machine

/-- The block in the writer's hands is the oldest of the ring. -/
def WriterPoint.Carries (r : Ring) : WriterPoint → Prop
  | .staged offset block | .inFlight offset block | .wrote offset block _ =>
    offset = r.tailOffset ∧ block = r.oldest ∧ r.blockSize ≤ r.filled
  | _ => True

namespace WriterPoint.Carries

variable {r r' : Ring} {w : WriterPoint}

theorem wake (h : w.Carries r) : w.wakeForItem.Carries r := by
  cases w with
  | asleep => trivial
  | _ => exact h

/-- Bytes that come in leave the block the oldest. -/
theorem grow {more : Bytes} (h : w.Carries r) (hr : r.Valid) (hr' : r'.Valid)
    (hb : r'.blockSize = r.blockSize) (ht : r'.tailOffset = r.tailOffset)
    (hq : r'.queue = r.queue ++ more) : w.Carries r' := by
  have hnext : ∀ offset block, offset = r.tailOffset ∧ block = r.oldest ∧ r.blockSize ≤ r.filled →
      offset = r'.tailOffset ∧ block = r'.oldest ∧ r'.blockSize ≤ r'.filled := by
    rintro offset block ⟨hoffset, hblock, hf⟩
    obtain ⟨hf', holdest⟩ := Ring.oldest_eq_of_append hr hr' hb hf hq
    exact ⟨hoffset.trans ht.symm, hblock.trans holdest.symm, hb ▸ hf'⟩
  cases w with
  | staged | inFlight | wrote => exact hnext _ _ h
  | _ => trivial

/-- With less than a block in the ring the writer has no block. -/
theorem of_filled_lt (h : w.Carries r) (he : r.filled < r.blockSize) : w.Carries r' := by
  cases w with
  | staged | inFlight | wrote => exact absurd h.2.2 (Nat.not_le.2 he)
  | _ => trivial

end WriterPoint.Carries

theorem Buffers.same {s s' : LogState} {log : Bytes} (h : Buffers s log) (hs : s.SameRing s') :
    Buffers s' log :=
  h.congr hs.ring hs.pad (fun hd => hs.draining ▸ hd) fun hd hf => ⟨hs.draining ▸ hd, hs.failure ▸ hf⟩

/-- A block that has been padded has been popped where the ring is empty. -/
theorem Buffers.admits_takeBack {s : LogState} {log : Bytes} (h : Buffers s log)
    (he : s.ring.filled = 0) (hp : 0 < s.pad) : s.ring.Admits (.takeBack s.pad) := by
  have hend := h.endOffset
  exact ⟨he, hp, h.pad_lt, Nat.le_of_dvd (by omega) h.ring.offset_aligned⟩

theorem Buffers.length?_eq {s : LogState} {log : Bytes} (h : Buffers s log) :
    s.length? = some s.length := by
  have hend := h.endOffset
  exact minus?_eq (by rw [Ring.endOffset]; omega)

namespace Machine

variable {δ : Type}

/-! ### What a step of a client does to the ring -/

/-- What a section of a client that goes from `p` to `p'` does to ring and flush, with its calls. -/
inductive RingStep (s s' : LogState) (p p' : ClientPoint) : List Ring.Operation → Prop
  | nothing (same : s.SameRing s') (waits : p'.pad? = p.pad?) : RingStep s s' p p' []
  | push {rest : Bytes} (held : p.holdsAppend = true) (before : p.pad? = none)
    (sound : s.failure = none) (same : { s with ring := (s.ring.push rest).1 }.SameRing s')
    (after : p'.pad? = none) : RingStep s s' p p' [.push rest]
  | fill (held : p.holdsAppend = true) (before : p.pad? = none) (sound : s.failure = none)
    (same : { s with
      ring := s.ring.fillUp.1, pad := s.ring.padding, draining := true }.SameRing s')
    (after : p'.pad? = some s.ring.padding) : RingStep s s' p p' [.fillUp]
  | fail {pad : Nat} (before : p.pad? = some pad) (failed : s.failure ≠ none)
    (same : { s with draining := false }.SameRing s') (after : p'.pad? = none) : RingStep s s' p p' []
  | settle {pad : Nat} (before : p.pad? = some pad) (sound : s.failure = none)
    (empty : s.ring.filled = 0)
    (same : ({ s with draining := false }.settleFlush pad).SameRing s') (after : p'.pad? = none) :
    RingStep s s' p p' (s.settleCalls pad)

/-- A section that calls the ring calls it for what it does to it. -/
theorem RingStep.ring_eq {s s' : LogState} {p p' : ClientPoint} {calls : List Ring.Operation}
    (h : RingStep s s' p p' calls) : s'.ring = (s.ring.run calls).1 := by
  cases h with
  | nothing same => exact same.ring
  | push _ _ _ same => exact same.ring
  | fill _ _ _ same => exact same.ring
  | fail _ _ same => exact same.ring
  | @settle pad _ sound empty same =>
    rw [same.ring, LogState.settleCalls, LogState.settleFlush]
    by_cases hp : 0 < pad
    · rw [if_pos hp, if_pos ⟨sound, empty, hp⟩]
      rfl
    · rw [if_neg hp, if_neg fun h => hp h.2.2]
      rfl

variable [Device δ] {m m' m₁ : Machine δ} {t : Nat} {p p' : ClientPoint}

omit [Device δ] in
/-- Only a client with the append lock calls the ring. -/
theorem ringCalls_of_not_holdsAppend (hp : m.clients[t]? = some p) (hheld : p.holdsAppend = false) :
    m.ringCalls (.step (.client t)) = [] := by
  cases p with
  | appendAdmitted | appendWaiting | flushAdmitted | flushWaiting => cases hheld
  | _ => simp only [ringCalls, hp]

omit [Device δ] in
theorem ringCalls_of_feeds (hp : m.clients[t]? = some p) {data rest : Bytes} {offset : Nat}
    (hf : Feeds m p data rest offset) :
    m.ringCalls (.step (.client t)) = m.state.pushCalls rest ∧ p.holdsAppend = true ∧
      p.pad? = none := by
  cases hf <;> exact ⟨by simp only [ringCalls, hp], rfl, rfl⟩

theorem ClientStep.ringStep (hp : m.clients[t]? = some p) (hs : ClientStep m t p p' m₁) :
    RingStep m.state m₁.state p p' (m.ringCalls (.step (.client t))) := by
  cases hs with
  | refuseAppend _ failed =>
    simp only [ringCalls, hp]
    rw [LogState.pushCalls_eq_nil (.inr (.inl (by simp [failed])))]
    exact .nothing (.of_parts rfl) rfl
  | feedNothing _ feeds =>
    obtain ⟨hcalls, -, hpad⟩ := ringCalls_of_feeds hp feeds
    rw [hcalls, LogState.pushCalls_eq_nil (.inl rfl)]
    exact .nothing (.of_parts rfl) hpad.symm
  | feedRefused _ feeds _ failed =>
    obtain ⟨hcalls, -, hpad⟩ := ringCalls_of_feeds hp feeds
    rw [hcalls, LogState.pushCalls_eq_nil (.inr (.inl (by simp [failed])))]
    exact .nothing (.of_parts rfl) hpad.symm
  | feedBlocked _ feeds _ _ full =>
    obtain ⟨hcalls, -, hpad⟩ := ringCalls_of_feeds hp feeds
    rw [hcalls, LogState.pushCalls_eq_nil (.inr (.inr full))]
    exact .nothing (.of_parts rfl) hpad.symm
  | feedPart _ feeds sound room short =>
    obtain ⟨hcalls, hheld, hpad⟩ := ringCalls_of_feeds hp feeds
    have hmore := List.ne_nil_of_length_pos (Nat.lt_trans room short)
    rw [hcalls, LogState.pushCalls, if_pos ⟨hmore, sound, Nat.ne_of_gt room⟩]
    exact .push hheld hpad sound (.of_parts rfl) rfl
  | feedAll _ feeds more sound fits =>
    obtain ⟨hcalls, hheld, hpad⟩ := ringCalls_of_feeds hp feeds
    have hpos := List.length_pos_iff.2 more
    rw [hcalls, LogState.pushCalls, if_pos ⟨more, sound, by omega⟩]
    exact .push hheld hpad sound (.of_parts rfl) rfl
  | refuseFlush _ failed =>
    simp only [ringCalls, hp]
    rw [LogState.fillCalls, if_neg (by simp [failed])]
    exact .nothing (.of_parts rfl) (Purpose.pad?_next ..)
  | flushNothing _ _ empty =>
    simp only [ringCalls, hp]
    rw [LogState.fillCalls, if_neg fun h => h.2 empty]
    exact .nothing (.of_parts rfl) (Purpose.pad?_next ..)
  | flushPads _ sound some_filled =>
    simp only [ringCalls, hp]
    rw [LogState.fillCalls, if_pos ⟨sound, some_filled⟩]
    exact .fill rfl rfl sound (.of_parts rfl) rfl
  | flushWaits _ _ some_filled =>
    simp only [ringCalls, hp]
    rw [LogState.settleCalls, if_neg fun h => some_filled h.2.1]
    exact .nothing (.of_parts rfl) rfl
  | flushFails _ failed =>
    simp only [ringCalls, hp]
    rw [LogState.settleCalls, if_neg (by simp [failed])]
    exact .fail rfl (by simp [failed]) (.of_parts rfl) (Purpose.pad?_next ..)
  | flushDone _ sound empty =>
    simp only [ringCalls, hp]
    exact .settle rfl sound empty (.of_parts rfl) (Purpose.pad?_next ..)
  | _ =>
    rw [ringCalls_of_not_holdsAppend hp rfl]
    exact .nothing (.of_parts rfl) rfl

/-! ### Order among the threads -/

omit [Device δ] in
/-- Whoever waits with padding waits with the padding of the flush under way, and while one is under way
    somebody waits. -/
structure Awaited (m : Machine δ) : Prop where
  waits : ∀ (t : Nat) (p : ClientPoint) (pad : Nat), m.clients[t]? = some p → p.pad? = some pad →
    m.state.pad = pad ∧ m.state.draining = true
  flushing : m.state.draining = true →
    ∃ (t : Nat) (p : ClientPoint) (pad : Nat), m.clients[t]? = some p ∧ p.pad? = some pad

omit [Device δ] in
/-- What the threads of a log keep to, as far as ring and flush go. -/
structure Orderly (m : Machine δ) : Prop where
  exclusive : m.Exclusive
  buffers : ∃ log, Buffers m.state log
  carries : m.writer.Carries m.state.ring
  awaited : m.Awaited

section

omit [Device δ]

/-- No flush is under way, and nobody waits. -/
theorem Awaited.nobody (hnone : ∀ (t : Nat) (p : ClientPoint), m.clients[t]? = some p → p.pad? = none)
    (hd : m.state.draining = false) : m.Awaited where
  waits t p pad hp hpad := by
    rw [hnone t p hp] at hpad
    cases hpad
  flushing hd' := by
    rw [hd] at hd'
    cases hd'

/-- Clients that are woken wait on with what they had. -/
theorem Awaited.wake (h : m.Awaited) {wake : ClientPoint → ClientPoint}
    (hw : ∀ p, ClientPoint.Woken p (wake p)) (hclients : m'.clients = m.clients.map wake)
    (hpad : m'.state.pad = m.state.pad) (hdrain : m'.state.draining = m.state.draining) :
    m'.Awaited where
  waits t q pad hq hwaits := by
    rw [hclients, List.getElem?_map] at hq
    obtain ⟨p, hp, rfl⟩ := Option.map_eq_some_iff.1 hq
    rw [hpad, hdrain]
    exact h.waits t p pad hp ((hw p).pad?.symm.trans hwaits)
  flushing hd := by
    obtain ⟨t, p, pad, hp, hwaits⟩ := h.flushing (hdrain ▸ hd)
    exact ⟨t, wake p, pad, by rw [hclients, List.getElem?_map, hp]; rfl, (hw p).pad?.trans hwaits⟩

/-- A client that moves on waits with what it had. -/
theorem Awaited.placed (h : m.Awaited) (hp : m.clients[t]? = some p)
    (hplaced : Placed m.clients m'.clients t p') (hwaits : p'.pad? = p.pad?)
    (hpad : m'.state.pad = m.state.pad) (hdrain : m'.state.draining = m.state.draining) :
    m'.Awaited where
  waits u q pad hq hq' := by
    rw [hpad, hdrain]
    rcases hplaced.cases hq with ⟨rfl, rfl⟩ | ⟨-, hq⟩
    · exact h.waits u p pad hp (hwaits.symm.trans hq')
    · exact h.waits u q pad hq hq'
  flushing hd := by
    obtain ⟨u, q, pad, hq, hq'⟩ := h.flushing (hdrain ▸ hd)
    by_cases hut : u = t
    · rw [hut, hp] at hq
      cases hq
      exact ⟨t, p', pad, hplaced.self, hwaits.trans hq'⟩
    · exact ⟨u, q, pad, (hplaced.other hut).trans hq, hq'⟩

/-- Whoever else holds the append lock knows that no flush is under way. -/
theorem Orderly.draining_eq_false (h : m.Orderly) (hp : m.clients[t]? = some p)
    (hheld : p.holdsAppend = true) (hpad : p.pad? = none) : m.state.draining = false := by
  by_contra hd
  obtain ⟨u, q, pad, hq, hwaits⟩ := h.awaited.flushing (Bool.not_eq_false _ ▸ hd)
  have hut := h.exclusive.append_unique hp hq hheld (ClientPoint.holdsAppend_of_pad? hwaits)
  rw [hut, hp] at hq
  cases hq
  rw [hpad] at hwaits
  cases hwaits

/-- Beside a client that holds the append lock nobody waits with padding. -/
theorem Orderly.pad?_eq_none (h : m.Orderly) (hp : m.clients[t]? = some p)
    (hheld : p.holdsAppend = true) {u : Nat} {q : ClientPoint} (hut : u ≠ t)
    (hq : m.clients[u]? = some q) : q.pad? = none := by
  cases hpad : q.pad? with
  | none => rfl
  | some pad =>
    exact absurd (h.exclusive.append_unique hp hq hheld (ClientPoint.holdsAppend_of_pad? hpad)) hut

end

theorem Orderly.clientStep (h : m.Orderly) (hp : m.clients[t]? = some p)
    (hs : ClientStep m t p p' m₁) : (m₁.setClient t p').Orderly := by
  obtain ⟨log, hbuffers⟩ := h.buffers
  have hexclusive := h.exclusive.clientStep hp hs
  have hplaced := hs.placed hp
  have hring := hbuffers.ring
  have hcarries : m.writer.Carries m₁.state.ring → m₁.writer.Carries m₁.state.ring := by
    intro hc
    rcases hs.writer_eq with hw | hw <;> rw [hw]
    · exact hc
    · exact hc.wake
  -- a client that holds the append lock and does not wait itself afterwards: so nobody waits
  have hnone : p.holdsAppend = true → p'.pad? = none → ∀ (u : Nat) (q : ClientPoint),
      (m₁.setClient t p').clients[u]? = some q → q.pad? = none := by
    intro hheld hafter u q hq
    rcases hplaced.cases hq with ⟨rfl, rfl⟩ | ⟨hut, hq⟩
    · exact hafter
    · exact h.pad?_eq_none hp hheld hut hq
  have hstep := hs.ringStep hp
  generalize m.ringCalls (.step (.client t)) = calls at hstep
  cases hstep with
  | nothing same waits =>
    exact ⟨hexclusive, ⟨log, hbuffers.same same⟩, hcarries (by rw [same.ring]; exact h.carries),
      h.awaited.placed hp hplaced waits same.pad same.draining⟩
  | @push rest held before sound same after =>
    have hd := h.draining_eq_false hp held before
    refine ⟨hexclusive, ⟨_, (hbuffers.push hd sound rest).same same⟩, hcarries ?_,
      .nobody (hnone held after) (same.draining.trans hd)⟩
    rw [same.ring]
    exact h.carries.grow hring (hring.push rest) (Ring.push_blockSize hring rest)
      (Ring.push_tailOffset hring rest) (Ring.queue_push hring rest)
  | fill held before sound same after =>
    have hd := h.draining_eq_false hp held before
    refine ⟨hexclusive, ⟨_, (hbuffers.padding hd sound).same same⟩, hcarries ?_,
      fun u q pad hq hpad => ?_, fun _ => ⟨t, p', _, hplaced.self, after⟩⟩
    · rw [same.ring]
      exact h.carries.grow hring hring.fillUp (Ring.fillUp_blockSize _) (Ring.fillUp_tailOffset _)
        (Ring.queue_fillUp hring)
    · rcases hplaced.cases hq with ⟨rfl, rfl⟩ | ⟨hut, hq⟩
      · rw [after] at hpad
        cases hpad
        exact ⟨same.pad, same.draining⟩
      · rw [h.pad?_eq_none hp held hut hq] at hpad
        cases hpad
  | fail before failed same after =>
    have hheld := ClientPoint.holdsAppend_of_pad? before
    have hover : Buffers { m.state with draining := false } log :=
      hbuffers.congr rfl rfl (fun hd => by cases hd) fun _ hf => absurd hf failed
    exact ⟨hexclusive, ⟨log, hover.same same⟩, hcarries (by rw [same.ring]; exact h.carries),
      .nobody (hnone hheld after) same.draining⟩
  | settle before sound empty same after =>
    have hheld := ClientPoint.holdsAppend_of_pad? before
    have hpos := hring.blockSize_pos
    obtain ⟨rfl, -⟩ := h.awaited.waits t p _ hp before
    exact ⟨hexclusive, ⟨log, (hbuffers.settle empty).same same⟩,
      hcarries (h.carries.of_filled_lt (by omega)), .nobody (hnone hheld after) same.draining⟩

omit [Device δ] in
/-- At the head of its loop the writer takes the oldest block, or none. -/
theorem LoopStep.orderly {log : Bytes} (hl : LoopStep m m') (h : Buffers m.state log) :
    Buffers m'.state log ∧ m'.writer.Carries m'.state.ring := by
  cases hl with
  | take ready =>
    exact ⟨h.congr rfl rfl id fun hd hf => ⟨hd, hf⟩, rfl, rfl, of_decide_eq_true ready⟩
  | sleep | leave => exact ⟨h.congr rfl rfl id fun hd hf => ⟨hd, hf⟩, trivial⟩

theorem WriterStep.orderly {log : Bytes} (hs : WriterStep m m') (h : Buffers m.state log)
    (hc : m.writer.Carries m.state.ring) :
    Buffers m'.state log ∧ m'.writer.Carries m'.state.ring := by
  cases hs with
  | loop _ _ loop => exact loop.orderly h
  | enter staged =>
    rw [staged] at hc
    exact ⟨h, hc⟩
  | done inFlight | failed inFlight =>
    rw [inFlight] at hc
    exact ⟨h, hc⟩
  | panicked => exact ⟨h, trivial⟩
  | complete wrote _ loop =>
    rw [wrote] at hc
    exact loop.orderly ((h.pop hc.2.2).congr rfl rfl id fun hd hf => ⟨hd, hf⟩)
  | fail => exact ⟨h.congr rfl rfl id fun _ hf => (by cases hf), trivial⟩
  | @record panicked =>
    refine ⟨h.congr rfl rfl id fun hd hf => ⟨hd, ?_⟩, trivial⟩
    replace hf : (if panicked ∧ m.state.failure = none then some Degradation.writerPanicked
      else m.state.failure) = none := hf
    split at hf
    · cases hf
    · exact hf
  | announce => exact ⟨h, trivial⟩

theorem Orderly.writerStep (h : m.Orderly) (hs : WriterStep m m') : m'.Orderly := by
  obtain ⟨log, hbuffers⟩ := h.buffers
  obtain ⟨wake, hwake, hclients⟩ := hs.clients
  obtain ⟨hbuffers', hcarries⟩ := hs.orderly hbuffers h.carries
  exact ⟨h.exclusive.writerStep hs, ⟨log, hbuffers'⟩, hcarries,
    h.awaited.wake hwake hclients hs.state_eq.1 hs.state_eq.2⟩

omit [Device δ] in
theorem Orderly.submit (h : m.Orderly) {request : Request} (hs : m.submit? t request = some m') :
    m'.Orderly := by
  obtain ⟨hstate, hwriter, -⟩ := submit?_frame hs
  obtain ⟨last, hp, -, -⟩ := submit?_cases hs
  refine ⟨h.exclusive.submit hs, hstate ▸ h.buffers, by rw [hstate, hwriter]; exact h.carries,
    h.awaited.placed hp (submit?_placed hs) ?_ (by rw [hstate]) (by rw [hstate])⟩
  cases request <;> rfl

theorem Orderly.move (h : m.Orderly) {move : Move} (hm : m.move? move = some m') : m'.Orderly := by
  match move, hm with
  | .submit t request, hm => exact h.submit hm
  | .step .writer, hm => exact h.writerStep (writerStep?_cases hm)
  | .step (.client t), hm =>
    obtain ⟨p, p', m₁, hp, hs, rfl⟩ := clientStep?_cases hm
    exact h.clientStep hp hs

/-- A log that has just been opened. -/
theorem orderly_start {device : δ} {settings : Settings} {clients : Nat}
    (h : open? device settings clients = .ok m) : m.Orderly := by
  obtain ⟨ring, cache, hring, -, rfl⟩ := open?_eq_ok h
  refine ⟨exclusive_start .., ⟨[], .start cache hring⟩, trivial, .nobody (fun t p hp => ?_) rfl⟩
  rw [List.eq_of_mem_replicate (List.mem_of_getElem? hp)]
  rfl

end Machine

end BlockLog
