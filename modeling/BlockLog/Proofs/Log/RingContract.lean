import BlockLog.Proofs.Log.Orderly

/-! Every call of the ring is one that may be made. The ring checks nothing itself, and what allows a
    call has often been found out in a section that is long over: the writer lets go of a block that
    it copied out before its device write, a flush takes back the padding that it put in before it
    slept.

        oldest ──▶ · ──▶ · ──▶ device write, done ──▶ · ──▶ dropOldest
        └──────── Staged ────────┘
        └─────────────────── Written ───────────────────┘       at each dot bytes may have come in

    The device may do whatever it likes here: answer anything, and be another one from one moment to
    the next. -/

namespace BlockLog

/-- The calls of a moment, each with the ring that it is made on. -/
def Moment.ringCalls {δ : Type} (now : Moment δ) : List (Ring × Ring.Operation) :=
  now.before.state.ring.calls (now.before.ringCalls now.move)

namespace History

variable {δ : Type} [Device δ]

omit [Device δ] in
/-- The block was copied out of the ring as its oldest, and since then bytes have come in at most. -/
inductive Staged (offset : Nat) (block : Bytes) : History δ → Prop
  | now {now earlier r} (call : now.ringCalls.getLast? = some (r, .oldest))
    (hoffset : r.tailOffset = offset) (hblock : r.oldest = block) : Staged offset block (now :: earlier)
  | since {now earlier} (staged : Staged offset block earlier)
    (adds : ∀ call ∈ now.ringCalls, call.2.adds = true) : Staged offset block (now :: earlier)

/-- The block was copied out of the ring as its oldest and then written to the device, and all the
    while bytes have come in at most. -/
inductive Written (offset : Nat) (block : Bytes) : History δ → Prop
  | now {now earlier} (staged : Staged offset block earlier)
    (adds : ∀ call ∈ now.ringCalls, call.2.adds = true)
    (done : now.before.deviceCall? now.move = some (.write offset block .done)) :
    Written offset block (now :: earlier)
  | since {now earlier} (written : Written offset block earlier)
    (adds : ∀ call ∈ now.ringCalls, call.2.adds = true) : Written offset block (now :: earlier)

/-- What the run says of the block in the writer's hands. -/
def Tells (past : History δ) : WriterPoint → Prop
  | .staged offset block | .inFlight offset block | .wrote offset block (.error _) =>
    past.Staged offset block
  | .wrote offset block (.ok ()) => past.Written offset block
  | _ => True

end History

namespace Machine

variable {δ : Type} [Device δ] {m m' m₁ : Machine δ} {t : Nat} {p p' : ClientPoint}

/-! ### What a move calls -/

/-- A call that keeps the contract of the ring. It may be made and is safe; a block that it copies out
    is what the writer has next, and a block that it lets go of has been copied out and written. -/
structure Kept (past : History δ) (m' : Machine δ) (r : Ring) (op : Ring.Operation) : Prop where
  admits : r.Admits op
  safe : r.perform? op = some (r.perform op)
  staged : op = .oldest → m'.writer = .staged r.tailOffset r.oldest
  written : op = .dropOldest → past.Written r.tailOffset r.oldest

omit [Device δ] in
theorem LoopStep.ring_eq (h : LoopStep m m') : m'.state.ring = m.state.ring := by
  cases h <;> rfl

omit [Device δ] in
theorem mem_calls_takeCalls {r r' : Ring} {op : Ring.Operation} (h : (r', op) ∈ r.calls r.takeCalls) :
    r' = r ∧ op = .oldest ∧ r.blockReady = true := by
  unfold Ring.takeCalls at h
  split at h
  · cases List.mem_singleton.1 h
    exact ⟨rfl, rfl, ‹_›⟩
  · cases h

theorem LoopStep.kept {past : History δ} {log : Bytes} (hl : LoopStep m m') (h : Buffers m.state log) :
    ∀ r op, (r, op) ∈ m.state.ring.calls m.state.ring.takeCalls → Kept past m' r op := by
  intro r op hcall
  obtain ⟨rfl, rfl, ready⟩ := mem_calls_takeCalls hcall
  have hadmits : m.state.ring.blockSize ≤ m.state.ring.filled := of_decide_eq_true ready
  refine ⟨hadmits, Ring.perform?_eq h.ring hadmits, fun _ => ?_, fun hd => by cases hd⟩
  cases hl with
  | take => rfl
  | sleep empty | leave empty =>
    rw [ready] at empty
    cases empty

theorem WriterStep.ring_eq (hs : WriterStep m m') :
    m'.state.ring = (m.state.ring.run (m.ringCalls (.step .writer))).1 := by
  have htake : ∀ r : Ring, (r.run r.takeCalls).1 = r := by
    intro r
    unfold Ring.takeCalls
    split <;> rfl
  cases hs with
  | loop ready _ loop =>
    simp only [ringCalls, ready]
    rw [htake, loop.ring_eq]
  | complete wrote _ loop =>
    simp only [ringCalls, wrote]
    rw [loop.ring_eq]
    exact (htake _).symm
  | enter hw | done hw | failed hw | panicked hw | fail hw | record hw | announce hw =>
    simp only [ringCalls, hw]
    rfl

theorem WriterStep.kept {past : History δ} (h : m.Orderly) (htells : past.Tells m.writer)
    (hs : WriterStep m m') : ∀ r op, (r, op) ∈ m.state.ring.calls (m.ringCalls (.step .writer)) →
      Kept past m' r op := by
  obtain ⟨log, hbuffers⟩ := h.buffers
  have hcarries := h.carries
  intro r op hcall
  cases hs with
  | loop ready _ loop =>
    simp only [ringCalls, ready] at hcall
    exact loop.kept hbuffers r op hcall
  | @complete offset block _ wrote _ loop =>
    simp only [ringCalls, wrote] at hcall
    rw [wrote] at hcarries htells
    obtain ⟨rfl, rfl, hfilled⟩ := hcarries
    rcases List.mem_cons.1 hcall with heq | hcall
    · cases heq
      exact ⟨hfilled, Ring.perform?_eq hbuffers.ring hfilled, fun hd => (by cases hd), fun _ => htells⟩
    · exact loop.kept ((hbuffers.pop hfilled).congr rfl rfl id fun hd hf => ⟨hd, hf⟩) r op hcall
  | enter hw | done hw | failed hw | panicked hw | fail hw | record hw | announce hw =>
    simp only [ringCalls, hw] at hcall
    cases hcall

theorem Orderly.keptClient {past : History δ} (h : m.Orderly) (hp : m.clients[t]? = some p)
    (hs : ClientStep m t p p' m₁) :
    ∀ r op, (r, op) ∈ m.state.ring.calls (m.ringCalls (.step (.client t))) →
      Kept past (m₁.setClient t p') r op := by
  obtain ⟨log, hbuffers⟩ := h.buffers
  intro r op hcall
  have hstep := hs.ringStep hp
  generalize m.ringCalls (.step (.client t)) = calls at hstep hcall
  cases hstep with
  | nothing | fail => cases hcall
  | push | fill =>
    cases List.mem_singleton.1 hcall
    exact ⟨trivial, Ring.perform?_eq hbuffers.ring trivial, fun hd => (by cases hd),
      fun hd => by cases hd⟩
  | @settle pad before _ empty =>
    obtain ⟨rfl, -⟩ := h.awaited.waits t p pad hp before
    unfold LogState.settleCalls at hcall
    split at hcall
    · rename_i hpad
      have hadmits := hbuffers.admits_takeBack empty hpad.2.2
      cases List.mem_singleton.1 hcall
      exact ⟨hadmits, Ring.perform?_eq hbuffers.ring hadmits, fun hd => (by cases hd),
        fun hd => by cases hd⟩
    · cases hcall

/-! ### Runs -/

/-- From `m₀` the moves of a history lead to `m`, whatever becomes of the device in between. -/
inductive Evolves (m₀ : Machine δ) : History δ → Machine δ → Prop
  | start : Evolves m₀ [] m₀
  | move {past m m'} (move : Move) (evolved : Evolves m₀ past m) (next : m.move? move = some m') :
    Evolves m₀ (⟨m, move, m'⟩ :: past) m'
  | device {past m} (d : δ) (evolved : Evolves m₀ past m) : Evolves m₀ past (m.withDevice d)

/-- Among these runs are those on a lawful device. -/
theorem Reaches.evolves [LawfulDevice δ] {m₀ : Machine δ} {past : History δ} (h : Reaches m₀ past m) :
    Evolves m₀ past m := by
  induction h with
  | start => exact .start
  | move move _ next ih => exact .move move ih next
  | faults d _ _ ih => exact .device d ih

end Machine

namespace History.Tells

open Machine

variable {δ : Type} [Device δ] {past : History δ} {m m' m₁ : Machine δ} {w : WriterPoint} {t : Nat}
  {p p' : ClientPoint}

theorem wake (h : past.Tells w) : past.Tells w.wakeForItem := by
  cases w with
  | asleep => trivial
  | _ => exact h

/-- While the writer has a block, bytes that come in change nothing for it. -/
theorem since {now : Moment δ} {r : Ring} (h : past.Tells w) (hc : w.Carries r)
    (hadds : r.blockSize ≤ r.filled → ∀ call ∈ now.ringCalls, call.2.adds = true) :
    Tells (now :: past) w := by
  match w, h, hc with
  | .staged _ _, h, hc | .inFlight _ _, h, hc | .wrote _ _ (.error _), h, hc =>
    exact Staged.since h (hadds hc.2.2)
  | .wrote _ _ (.ok ()), h, hc => exact Written.since h (hadds hc.2.2)
  | .ready, _, _ | .asleep, _, _ | .leaving _, _, _ | .announcing _, _, _ | .gone _, _, _ => trivial

/-- At the head of its loop the writer has the block that was copied out last. -/
theorem loop {now : Moment δ} (hl : LoopStep m m')
    (hcalls : m.state.ring.blockReady = true →
      now.ringCalls.getLast? = some (m.state.ring, .oldest)) : Tells (now :: past) m'.writer := by
  cases hl with
  | take ready => exact Staged.now (hcalls ready) rfl rfl
  | sleep | leave => trivial

theorem writerStep (h : past.Tells m.writer) (hs : WriterStep m m') :
    Tells (⟨m, .step .writer, m'⟩ :: past) m'.writer := by
  have hquiet : m.ringCalls (.step .writer) = [] → ∀ call ∈
      (Moment.mk m (.step .writer) m').ringCalls, call.2.adds = true := by
    intro hnil call hcall
    rw [Moment.ringCalls, hnil] at hcall
    cases hcall
  cases hs with
  | loop ready _ loop =>
    refine .loop loop fun hready => ?_
    simp only [Moment.ringCalls, Machine.ringCalls, ready, Ring.takeCalls, if_pos hready]
    rfl
  | enter staged =>
    rw [staged] at h
    exact Staged.since h (hquiet (by simp only [Machine.ringCalls, staged]))
  | done inFlight done =>
    rw [inFlight] at h
    exact Written.now h (hquiet (by simp only [Machine.ringCalls, inFlight]))
      (done ▸ deviceCall?_of_inFlight inFlight)
  | failed inFlight =>
    rw [inFlight] at h
    exact Staged.since h (hquiet (by simp only [Machine.ringCalls, inFlight]))
  | complete wrote _ loop =>
    refine .loop loop fun hready => ?_
    replace hready : m.state.ring.dropOldest.blockReady = true := hready
    simp only [Moment.ringCalls, Machine.ringCalls, wrote, Ring.takeCalls, if_pos hready]
    rfl
  | panicked | fail | record | announce => trivial

theorem clientStep (h : past.Tells m.writer) (ho : m.Orderly) (hp : m.clients[t]? = some p)
    (hs : ClientStep m t p p' m₁) :
    Tells (⟨m, .step (.client t), m₁.setClient t p'⟩ :: past) (m₁.setClient t p').writer := by
  obtain ⟨log, hbuffers⟩ := ho.buffers
  have hpos := hbuffers.ring.blockSize_pos
  have hsame : Tells (⟨m, .step (.client t), m₁.setClient t p'⟩ :: past) m.writer := by
    refine h.since ho.carries fun hfilled call hcall => ?_
    unfold Moment.ringCalls at hcall
    have hstep := hs.ringStep hp
    generalize m.ringCalls (.step (.client t)) = calls at hstep hcall
    cases hstep with
    | nothing | fail => cases hcall
    | push | fill =>
      cases List.mem_singleton.1 hcall
      rfl
    | settle _ _ empty => omega
  show Tells _ m₁.writer
  rcases hs.writer_eq with hw | hw <;> rw [hw]
  · exact hsame
  · exact hsame.wake

theorem move (h : past.Tells m.writer) (ho : m.Orderly) {move : Move} (hm : m.move? move = some m') :
    Tells (⟨m, move, m'⟩ :: past) m'.writer := by
  match move, hm with
  | .submit t request, hm =>
    rw [(submit?_frame hm).2.1]
    refine h.since ho.carries fun _ call hcall => ?_
    cases hcall
  | .step .writer, hm => exact h.writerStep (writerStep?_cases hm)
  | .step (.client t), hm =>
    obtain ⟨p, p', m₁, hp, hs, rfl⟩ := clientStep?_cases hm
    exact h.clientStep ho hp hs

end History.Tells

namespace Machine

variable {δ : Type} [Device δ] {device : δ} {settings : Settings} {clients : Nat} {m₀ m m' : Machine δ}
  {past : History δ}

theorem orderly_of_evolves (h₀ : open? device settings clients = .ok m₀) (h : Evolves m₀ past m) :
    m.Orderly ∧ past.Tells m.writer := by
  induction h with
  | start =>
    refine ⟨orderly_start h₀, ?_⟩
    obtain ⟨ring, cache, -, -, rfl⟩ := open?_eq_ok h₀
    trivial
  | move move _ next ih => exact ⟨ih.1.move next, ih.2.move ih.1 next⟩
  | device d _ ih =>
    obtain ⟨⟨hx, hbuffers, hcarries, hwaits, hflushing⟩, htells⟩ := ih
    exact ⟨⟨⟨hx.append, hx.state, hx.device, hx.closing⟩, hbuffers, hcarries, hwaits, hflushing⟩, htells⟩

theorem Orderly.kept (h : m.Orderly) (htells : past.Tells m.writer) {move : Move}
    (hm : m.move? move = some m') : m'.state.ring = (m.state.ring.run (m.ringCalls move)).1 ∧
      ∀ r op, (r, op) ∈ m.state.ring.calls (m.ringCalls move) → Kept past m' r op := by
  match move, hm with
  | .submit t request, hm =>
    exact ⟨congrArg LogState.ring (submit?_frame hm).1, fun r op hcall => by cases hcall⟩
  | .step .writer, hm =>
    have hs := writerStep?_cases hm
    exact ⟨hs.ring_eq, hs.kept h htells⟩
  | .step (.client t), hm =>
    obtain ⟨p, p', m₁, hp, hs, rfl⟩ := clientStep?_cases hm
    exact ⟨(hs.ringStep hp).ring_eq, h.keptClient hp hs⟩

/-- The threads keep the contract of the ring at every moment of every run, whatever the device does.

    What a move does to the ring is what the calls of the move do to it, and every one of these calls
    is made where it may be made, and so takes no bytes from outside the storage and subtracts nothing
    below zero. What the writer lets go of is, byte for byte and at the same offset, the block that it
    copied out and that the device has written, although bytes have come in since. Asking for the free
    space of the ring and for the length of the log is safe all the while. -/
theorem ring_contract_kept (h₀ : open? device settings clients = .ok m₀) (h : Evolves m₀ past m) :
    m.state.ring.free? = some m.state.ring.free ∧ m.state.length? = some m.state.length ∧
    ∀ move m', m.move? move = some m' →
      m'.state.ring = (m.state.ring.run (m.ringCalls move)).1 ∧
      ∀ r op, (r, op) ∈ m.state.ring.calls (m.ringCalls move) → Kept past m' r op := by
  obtain ⟨horderly, htells⟩ := orderly_of_evolves h₀ h
  obtain ⟨log, hbuffers⟩ := horderly.buffers
  exact ⟨Ring.free?_eq hbuffers.ring, hbuffers.length?_eq, fun move m' hm => horderly.kept htells hm⟩

/-- A block is let go of, and a padded one taken after it: an append and a flush have come in since the
    first was copied out. -/
theorem ring_contract_kept_padded : ∃ (m₀ m m' : Machine Device.Memory) (past : History Device.Memory),
    open? { blockSize := 2, contents := .ofList [] } { bufferBlocks := 2, cacheBlocks := 1 } 2 =
      .ok m₀ ∧ Evolves m₀ past m ∧ m.move? (.step .writer) = some m' ∧
    past.flatMap (fun now => now.before.ringCalls now.move) =
      [.fillUp, .push [3], .oldest, .push [1, 2]] ∧
    m.ringCalls (.step .writer) = [.dropOldest, .oldest] ∧
    ∀ r op, (r, op) ∈ m.state.ring.calls (m.ringCalls (.step .writer)) → Kept past m' r op := by
  let moves : List Move :=
    [.submit 0 (.append [1, 2]), .step (.client 0), .step (.client 0), .step .writer, .step .writer,
      .submit 0 (.append [3]), .step (.client 0), .step (.client 0),
      .submit 1 .flush, .step (.client 1), .step (.client 1), .step .writer]
  have h₀ : open? ({ blockSize := 2, contents := .ofList [] } : Device.Memory)
      { bufferBlocks := 2, cacheBlocks := 1 } 2 = .ok _ := rfl
  refine ⟨_, _, _, _, h₀, (reaches_of_run? moves rfl).evolves, rfl, by decide +kernel,
    by decide +kernel, ?_⟩
  exact ((ring_contract_kept h₀ (reaches_of_run? moves rfl).evolves).2.2 _ _ rfl).2

end Machine

end BlockLog
