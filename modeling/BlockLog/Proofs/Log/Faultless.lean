import BlockLog.Proofs.Log.Ledger
import BlockLog.Proofs.Log.Liveness

/-! Runs in which no device call fails: the log does not degrade, and every call is answered as it
    should be. All that a log asks of its device makes sense, writes of whole blocks, and reads of
    whole blocks that are there; so these are the runs on a device that has no fault set. -/

namespace BlockLog

/-- A call that answers and does not fail answers as it should. -/
theorem Answers.sound {log log' : Bytes} {request : Request} {reply : Reply}
    (h : Answers log request reply log')
    (hnone : ∀ e, reply = .error e → ∃ offset len size, e = .readPastEnd offset len size) :
    Exact log request reply log' := by
  cases h with
  | exact => exact .intro
  | fails other first =>
    obtain ⟨offset, len, size, he⟩ := hnone _ rfl
    exact absurd he (other offset len size)

theorem Trace.exact {calls : List Call} {log : Bytes} (h : Trace Answers calls log)
    (hnone : ∀ c ∈ calls, ∀ e, c.reply = .error e →
      ∃ offset len size, e = .readPastEnd offset len size) : Trace Exact calls log := by
  induction h with
  | nil => exact .nil
  | @snoc calls log log' c before last ih =>
    have hbefore := ih fun c' hc' => hnone c' (List.mem_append_left _ hc')
    exact .snoc hbefore (last.sound (hnone c (List.mem_append_right _ List.mem_cons_self)))

namespace Machine

open LawfulDevice (contents sync_ok)

variable {δ : Type} [Device δ] [LawfulDevice δ] {initial : Bytes} {m m' m₁ : Machine δ} {a : Account}
  {t : Nat} {p p' : ClientPoint}

/-- Nothing has failed, and no failure is on its way. -/
structure Sound (m : Machine δ) : Prop where
  failure : m.state.failure = none
  wrote : ∀ offset block e, m.writer ≠ .wrote offset block (.error e)
  leaving : m.writer ≠ .leaving true

omit [Device δ] [LawfulDevice δ] in
theorem Sound.not_failed (h : Sound m) {reason : Degradation} : m.state.failure ≠ some reason := by
  rw [h.failure]
  exact (Option.some_ne_none reason).symm

omit [LawfulDevice δ] in
theorem Sound.clientStep (h : Sound m) (hs : ClientStep m t p p' m₁) : Sound (m₁.setClient t p') where
  failure := hs.failure_eq.trans h.failure
  wrote offset block e hw := by
    replace hw : m₁.writer = _ := hw
    rcases hs.writer_eq with heq | heq <;> rw [heq] at hw
    · exact h.wrote offset block e hw
    · cases hm : m.writer <;> rw [hm] at hw <;> cases hw
      exact h.wrote offset block e hm
  leaving hw := by
    replace hw : m₁.writer = _ := hw
    rcases hs.writer_eq with heq | heq <;> rw [heq] at hw
    · exact h.leaving hw
    · cases hm : m.writer <;> rw [hm] at hw <;> cases hw
      exact h.leaving hm

omit [LawfulDevice δ] in
theorem Sound.writerStep (hsound : Sound m)
    (hd : ∀ call, m.deviceCall? (.step .writer) = some call → call.Succeeded) (hs : WriterStep m m') :
    Sound m' := by
  cases hs with
  | loop _ _ loop | complete _ _ loop =>
    cases loop <;> exact ⟨hsound.failure, fun _ _ _ hw => (by cases hw), fun hw => by cases hw⟩
  | enter | done | announce =>
    exact ⟨hsound.failure, fun _ _ _ hw => (by cases hw), fun hw => by cases hw⟩
  | failed inFlight failed =>
    have hdone : _ = WriteOutcome.done := hd _ (deviceCall?_of_inFlight inFlight)
    rw [failed] at hdone
    cases hdone
  | panicked inFlight panicked =>
    have hdone : _ = WriteOutcome.done := hd _ (deviceCall?_of_inFlight inFlight)
    rw [panicked] at hdone
    cases hdone
  | fail wrote => exact absurd wrote (hsound.wrote _ _ _)
  | @record panicked leaving =>
    cases panicked with
    | true => exact absurd leaving hsound.leaving
    | false => exact ⟨hsound.failure, fun _ _ _ hw => (by cases hw), fun hw => by cases hw⟩

/-- A call that ends does not fail. -/
theorem ClientStep.reply_of_sound (hsound : Sound m) (h : Inv initial m a)
    (hd : ∀ call, m.deviceCall? (.step (.client t)) = some call → call.Succeeded)
    (hp : m.clients[t]? = some p) (hs : ClientStep m t p p' m₁) {e : LogError}
    (hp' : p' = .idle (some (.error e))) : ∃ offset len size, e = .readPastEnd offset len size := by
  have hserves := h.serves t p hp
  have hnext : ∀ {purpose : Purpose} {size : Nat}, purpose.next (.ok size) = .idle (some (.error e)) →
      ∃ offset len size, e = .readPastEnd offset len size := by
    intro purpose size hn
    cases purpose with
    | flush => cases hn
    | read offset len =>
      unfold Purpose.next at hn
      dsimp only at hn
      split at hn
      · cases hn
        exact ⟨offset, len, size, rfl⟩
      · cases hn
    | close => cases hn
  cases hs with
  | refuseAppend _ failed | refuseFlush _ failed | flushFails _ failed | refuseRead _ failed =>
    exact absurd failed hsound.not_failed
  | feedRefused _ _ _ failed => exact absurd failed hsound.not_failed
  | flushNothing | flushDone => exact hnext hp'
  | @readFails offset len got block e more miss free hblock error =>
    have hok : _ = Except.ok () := hd _ (deviceCall?_of_reading hp more miss)
    rw [← hblock, error] at hok
    cases hok
  | joinDegraded _ _ failed =>
    rw [LogState.isDegraded, hsound.failure] at failed
    cases failed
  | @sync flushed joined =>
    obtain ⟨hclosing, rfl, -⟩ := hserves
    have hok : _ = Except.ok () := hd _ (deviceCall?_of_syncing hp)
    cases flushed with
    | error e => exact absurd hsound.failure (hclosing.failed e rfl).1
    | ok =>
      rw [hok] at hp'
      cases hp'
  | _ => cases hp'

variable {device : δ} {settings : Settings} {clients : Nat} {m₀ : Machine δ} {past : History δ}

/-- As long as no device call fails, nothing else does. -/
theorem sound_of_reaches (h₀ : open? device settings clients = .ok m₀) (h : Reaches m₀ past m)
    (hu : past.Unfailing) : Sound m ∧ ∀ c ∈ past.calls, ∀ e, c.reply = .error e →
      ∃ offset len size, e = .readPastEnd offset len size := by
  induction h with
  | start =>
    obtain ⟨ring, cache, -, -, rfl⟩ := open?_eq_ok h₀
    exact ⟨⟨rfl, fun _ _ _ hw => (by cases hw), fun hw => by cases hw⟩, fun c hc => by cases hc⟩
  | @move past m m' move reached next ih =>
    obtain ⟨hbefore, hd⟩ := hu.cons
    obtain ⟨hsound, hcalls⟩ := ih hbefore
    obtain ⟨⟨flushed, hinv⟩, -⟩ := inv_of_reaches h₀ reached
    refine ⟨?_, fun c hc e he => ?_⟩
    · match move, next with
      | .submit t request, next =>
        obtain ⟨last, -, -, hcase⟩ := submit?_cases next
        rcases hcase with ⟨-, rfl⟩ | ⟨-, -, rfl⟩ <;>
          exact ⟨hsound.failure, hsound.wrote, hsound.leaving⟩
      | .step .writer, next => exact hsound.writerStep hd (writerStep?_cases next)
      | .step (.client t), next =>
        obtain ⟨p, p', m₁, hp, hs, rfl⟩ := clientStep?_cases next
        exact hsound.clientStep hs
    · rw [History.calls, List.mem_append] at hc
      rcases hc with hc | hc
      · exact hcalls c hc e he
      · obtain ⟨p, p', m₁, hmove, hp, hs, -, -, hp', -⟩ :=
          History.ending?_cases (History.booked_of_reaches h₀ reached) next (Option.mem_toList.1 hc)
        rw [he] at hp'
        replace hmove : move = _ := hmove
        subst hmove
        exact hs.reply_of_sound hsound hinv hd hp hp'
  | faults d _ same ih =>
    obtain ⟨hsound, hcalls⟩ := ih hu
    exact ⟨⟨hsound.failure, hsound.wrote, hsound.leaving⟩, hcalls⟩

/-! ### Device calls that make sense -/

/-- Every position up to the end of the log's last block can be reached. -/
def Addressable (δ : Type) [Device δ] [LawfulDevice δ] (blockSize length : Nat) : Prop :=
  ∀ n, n ≤ length + blockSize → LawfulDevice.Reaches δ n

/-- The writer's write goes through. -/
theorem Inv.write_done (h : Inv initial m a) (hd : LawfulDevice.Faultless m.device)
    (hr : Addressable δ m.state.ring.blockSize a.log.length) {offset : Nat} {block : Bytes}
    (hw : m.writer = .inFlight offset block) :
    (Device.write m.device offset block).outcome = .done := by
  have hwrites := h.consistent.writes
  rw [hw] at hwrites
  obtain ⟨rfl, rfl, hfilled⟩ := hwrites
  have hring := h.consistent.buffers.ring
  have hend := h.consistent.buffers.endOffset
  have hpad := h.consistent.buffers.pad_lt
  have hlen := Ring.length_oldest hring
  refine LawfulDevice.write_done m.device _ _ hd ?_ (hr _ (by omega))
  rw [hlen, h.consistent.blockSize]
  exact ⟨Nat.ne_of_gt hring.blockSize_pos, Nat.mod_eq_zero_of_dvd hring.offset_aligned, Nat.mod_self _⟩

/-- A read of a block that a flush has covered goes through. -/
theorem Inv.read_ok (h : Inv initial m a) (hd : LawfulDevice.Faultless m.device)
    (hr : Addressable δ m.state.ring.blockSize a.log.length) {offset len : Nat} {got : Bytes}
    (hp : m.clients[t]? = some (.reading offset len got)) (hmore : got.length < len) :
    (Device.read m.device ((offset + got.length) / m.state.ring.blockSize * m.state.ring.blockSize)
      m.state.ring.blockSize).outcome = .ok () := by
  obtain ⟨⟨hrange, -⟩, -⟩ := h.serves t _ hp
  have hc := h.consistent
  have hpos := hc.buffers.ring.blockSize_pos
  have hflushed := hc.flushed_le
  have hdurable := hc.lands.durable_le
  have hfirst := Nat.div_mul_le_self (offset + got.length) m.state.ring.blockSize
  have hdvd : m.state.ring.blockSize ∣
      (offset + got.length) / m.state.ring.blockSize * m.state.ring.blockSize := Nat.dvd_mul_left ..
  -- the block ends inside the last block that has bytes of the log
  have hstop := add_le_of_dvd_of_lt hdvd (Bytes.dvd_add_gap hpos a.durable) (by omega)
  have hgap := Bytes.gap_lt hpos a.durable
  refine LawfulDevice.read_ok m.device _ _ hd ?_ ?_ (hr _ (by omega))
  · rw [hc.blockSize]
    exact ⟨Nat.ne_of_gt hpos, Nat.mod_eq_zero_of_dvd hdvd, Nat.mod_self _⟩
  · rw [hc.lands.contents_eq, Bytes.length_image, List.length_take, Nat.min_eq_left hdurable]
    omega

/-- What a log asks of a faultless device, it does. -/
theorem Inv.succeeded (h : Inv initial m a) (hd : LawfulDevice.Faultless m.device)
    (hr : Addressable δ m.state.ring.blockSize a.log.length) {move : Move} {call : DeviceCall}
    (hc : m.deviceCall? move = some call) : call.Succeeded := by
  match move, hc with
  | .submit t request, hc => cases hc
  | .step .writer, hc =>
    cases hw : m.writer with
    | inFlight offset block =>
      rw [deviceCall?_of_inFlight hw] at hc
      cases hc
      exact h.write_done hd hr hw
    | _ =>
      rw [deviceCall?_of_not_inFlight (by rw [hw]; rfl)] at hc
      cases hc
  | .step (.client t), hc =>
    cases hp : m.clients[t]? with
    | none => simp [deviceCall?, hp] at hc
    | some p =>
      cases p with
      | reading offset len got =>
        simp only [deviceCall?, hp] at hc
        split at hc
        · rename_i hmore
          cases hc
          exact h.read_ok hd hr hp hmore.1
        · cases hc
      | syncing flushed joined =>
        rw [deviceCall?_of_syncing hp] at hc
        cases hc
        exact sync_ok m.device hd
      | _ => simp [deviceCall?, hp] at hc

/-- On a faultless device that can be addressed far enough no device call fails. -/
theorem unfailing_of_faultless (h₀ : open? device settings clients = .ok m₀) (h : Reaches m₀ past m)
    (hf : past.Faultless) (hr : Addressable δ (Device.blockSize device) past.log.length) :
    past.Unfailing := by
  induction h with
  | start => exact fun call hc => by cases hc
  | @move past m m' move reached next ih =>
    have hr' : Addressable δ (Device.blockSize device) past.log.length := fun n hn => by
      refine hr n (Nat.le_trans hn (Nat.add_le_add_right ?_ _))
      rw [History.log, List.length_append]
      exact Nat.le_add_right ..
    have hbefore := ih (fun now hnow => hf now (List.mem_cons_of_mem _ hnow)) hr'
    obtain ⟨⟨flushed, hinv⟩, -, hblockSize⟩ := inv_of_reaches h₀ reached
    rw [← hblockSize] at hr'
    intro call hc
    rw [History.deviceCalls, List.mem_append] at hc
    rcases hc with hc | hc
    · exact hbefore call hc
    · exact hinv.succeeded (hf _ List.mem_cons_self) hr' (Option.mem_toList.1 hc)
  | faults d _ same ih => exact ih hf hr

end Machine

end BlockLog
