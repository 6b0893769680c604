import BlockLog.Proofs.Log.Liveness

/-! A log cannot go on for ever without new calls: every step lowers the potential of the machine. So a
    call that has been given is over after finitely many steps, whatever the schedule, and for as long
    as it is not over there is a step to take. -/

namespace BlockLog

namespace Prices

variable (P : Prices)

theorem client_pos {p : ClientPoint} (h : p.isIdle = false) : 0 < P.client p := by
  cases p with
  | idle => cases h
  | appendWaiting data rest offset asleep => cases asleep <;> exact Nat.succ_pos _
  | flushWaiting purpose pad asleep => cases asleep <;> exact Nat.succ_pos _
  | _ => exact Nat.succ_pos _

/-- Waking a client costs one at most. -/
theorem client_woken {p q : ClientPoint} (h : ClientPoint.Woken p q) : P.client q ≤ P.client p + 1 := by
  cases h with
  | same => exact Nat.le_succ _
  | @append data rest offset asleep => cases asleep <;> simp [client]
  | @flush purpose pad asleep => cases asleep <;> simp [client]

theorem writer_wakeForItem (w : WriterPoint) : P.writer w.wakeForItem ≤ P.writer w + 4 := by
  cases w <;> simp [WriterPoint.wakeForItem, writer]

/-- After its flush a call costs what has been set aside for that. -/
theorem client_next_lt (purpose : Purpose) (flushed : Except LogError Nat) :
    P.client (purpose.next flushed) < afterFlush purpose + 1 := by
  cases purpose with
  | flush => cases flushed <;> simp [Purpose.next, client, afterFlush]
  | read offset len =>
    cases flushed with
    | error e => simp [Purpose.next, client, afterFlush]
    | ok size =>
      simp only [Purpose.next]
      split <;> simp [client, afterFlush]
  | close => cases flushed <;> simp [Purpose.next, client, afterFlush]

/-- One of the clients moves. -/
theorem clients_set (P : Prices) (p' : ClientPoint) : ∀ {points : List ClientPoint} {t : Nat}
    {p : ClientPoint}, points[t]? = some p →
    P.clients (points.set t p') + P.client p = P.clients points + P.client p'
  | [], _, _, h => by cases h
  | q :: points, 0, p, h => by
    cases h
    rw [List.set_cons_zero, clients, clients]
    omega
  | q :: points, t + 1, p, h => by
    have ih := P.clients_set p' (show points[t]? = some p from h)
    rw [List.set_cons_succ, clients, clients]
    omega

theorem clients_woken (P : Prices) {wake : ClientPoint → ClientPoint}
    (hw : ∀ p, ClientPoint.Woken p (wake p)) : ∀ points : List ClientPoint,
    P.clients (points.map wake) ≤ P.clients points + points.length
  | [] => Nat.le_refl _
  | p :: points => by
    have ih := P.clients_woken hw points
    have hp := P.client_woken (hw p)
    rw [List.map_cons, clients, clients, List.length_cons]
    omega

end Prices

namespace Machine

variable {δ : Type} [Device δ] [LawfulDevice δ] {initial : Bytes} {m m' m₁ : Machine δ} {a : Account}
  {t : Nat} {p p' : ClientPoint}

omit [Device δ] [LawfulDevice δ] in
theorem Feeds.price {data rest : Bytes} {offset : Nat} (P : Prices) (hf : Feeds m p data rest offset) :
    P.pending * rest.length + 2 ≤ P.client p := by
  cases hf with
  | first => exact Nat.le_succ _
  | again => exact Nat.le_refl _

omit [Device δ] [LawfulDevice δ] in
/-- A push wakes the writer at most. -/
theorem writer_pushing_le (m : Machine δ) (rest : Bytes) :
    m.prices.writer (m.pushing rest).writer ≤ m.prices.writer m.writer + 4 := by
  rcases pushing_writer m rest with ⟨hw, -⟩ | hw <;> rw [hw]
  · exact Nat.le_add_right ..
  · exact m.prices.writer_wakeForItem m.writer

omit [Device δ] [LawfulDevice δ] in
/-- What is left to push pays for the ring, for the writer and for the point to go on from. -/
theorem pushing_price_lt (hring : m.state.ring.Valid) {data rest : Bytes} {offset : Nat}
    (hf : Feeds m p data rest offset) (hmore : 0 < (rest.take m.state.ring.free).length) :
    m.prices.buffered * (m.pushing rest).state.ring.filled +
        m.prices.writer (m.pushing rest).writer +
        (m.prices.pending * (rest.drop m.state.ring.free).length + 1) <
      m.prices.buffered * m.state.ring.filled + m.prices.writer m.writer + m.prices.client p := by
  have hprice := hf.price m.prices
  have hwriter := writer_pushing_le m rest
  have hfilled : (m.pushing rest).state.ring.filled =
      m.state.ring.filled + (rest.take m.state.ring.free).length := Ring.push_filled hring rest
  have hrest : rest.length =
      (rest.drop m.state.ring.free).length + (rest.take m.state.ring.free).length := by
    rw [List.length_drop, List.length_take]
    omega
  rw [hrest, Nat.mul_add, Prices.pending, Nat.add_mul _ 8 (rest.take _).length] at hprice
  rw [hfilled, Nat.mul_add, Prices.pending]
  omega

/-- A step of an append. -/
theorem ClientStep.price_lt_append (h : Inv initial m a) (hidle : 0 < m.prices.client p)
    (happend : p.isAppending = true) (hs : ClientStep m t p p' m₁) :
    m.prices.buffered * m₁.state.ring.filled + m.prices.writer m₁.writer + m.prices.client p' <
      m.prices.buffered * m.state.ring.filled + m.prices.writer m.writer + m.prices.client p := by
  have hring := h.consistent.buffers.ring
  cases hs with
  | refuseAppend | feedNothing | feedRefused => exact Nat.add_lt_add_left hidle _
  | feedBlocked _ feeds =>
    exact Nat.add_lt_add_left (Nat.lt_of_lt_of_le (Nat.lt_succ_self _) (feeds.price m.prices)) _
  | feedPart _ feeds _ room short =>
    refine pushing_price_lt hring feeds ?_
    rw [List.length_take]
    omega
  | feedAll _ feeds more _ fits =>
    have hpos := List.length_pos_iff.2 more
    refine Nat.lt_trans ?_ (pushing_price_lt hring feeds (by rwa [List.take_of_length_le fits]))
    exact Nat.add_lt_add_left (Nat.succ_pos _) _
  | _ => cases happend

/-- A step of a flush that holds the append lock. -/
theorem ClientStep.price_lt_flush (h : Inv initial m a) (hheld : p.holdsAppend = true)
    (happend : p.isAppending = false) (hs : ClientStep m t p p' m₁) :
    m.prices.buffered * m₁.state.ring.filled + m.prices.writer m₁.writer + m.prices.client p' <
      m.prices.buffered * m.state.ring.filled + m.prices.writer m.writer + m.prices.client p := by
  have hring := h.consistent.buffers.ring
  have hwake := m.prices.writer_wakeForItem m.writer
  cases hs with
  | @refuseFlush purpose | @flushNothing purpose =>
    have hnext := m.prices.client_next_lt purpose
    refine Nat.add_lt_add_left (Nat.lt_of_lt_of_le (hnext _) ?_) _
    simp only [Prices.client]
    omega
  | @flushPads purpose =>
    have hgap := Bytes.gap_lt hring.blockSize_pos m.state.ring.filled
    rw [← Ring.padding_eq_gap] at hgap
    have hblock : m.prices.buffered * m.state.ring.padding ≤ m.prices.block :=
      Nat.mul_le_mul_left _ (Nat.le_of_lt hgap)
    show m.prices.buffered * m.state.ring.fillUp.1.filled +
      m.prices.writer m.writer.wakeForItem + (Prices.afterFlush purpose + m.prices.block + 1) <
      _ + (Prices.afterFlush purpose + 2 * m.prices.block + 8)
    rw [Ring.fillUp_filled, Nat.mul_add]
    omega
  | flushWaits => exact Nat.add_lt_add_left (Nat.lt_succ_self _) _
  | @flushFails purpose =>
    have hnext := m.prices.client_next_lt purpose
    refine Nat.add_lt_add_left (Nat.lt_of_lt_of_le (hnext _) ?_) _
    simp only [Prices.client, Bool.false_eq_true, ↓reduceIte]
    omega
  | @flushDone purpose pad _ _ empty =>
    have hnext := m.prices.client_next_lt purpose (.ok (m.state.settleFlush pad).ring.endOffset)
    have hblock : m.prices.buffered *
        ({ m.state with draining := false }.settleFlush pad).ring.filled ≤ m.prices.block := by
      refine Nat.mul_le_mul_left _ ?_
      unfold LogState.settleFlush
      dsimp only
      split
      · exact Nat.sub_le ..
      · rw [empty]
        exact Nat.zero_le _
    show m.prices.buffered * ({ m.state with draining := false }.settleFlush pad).ring.filled +
      m.prices.writer m.writer + m.prices.client (purpose.next _) <
      _ + (Prices.afterFlush purpose + m.prices.block + 2)
    omega
  | feedNothing _ feeds | feedRefused _ feeds | feedBlocked _ feeds | feedPart _ feeds
  | feedAll _ feeds => cases feeds <;> cases happend
  | refuseAppend => cases happend
  | _ => cases hheld

omit [Device δ] [LawfulDevice δ] in
/-- One more segment makes a read cheaper. -/
theorem segment_price_lt (hring : m.state.ring.Valid) {block got : Bytes} {offset len : Nat}
    (hlen : block.length = m.state.ring.blockSize) (more : got.length < len) :
    m.prices.client (.reading offset len
        (got ++ block.slice ((offset + got.length) % m.state.ring.blockSize)
          (segment m.state.ring.blockSize offset len got.length).count)) <
      m.prices.client (.reading offset len got) := by
  obtain ⟨hlength, hle, hcount⟩ :=
    length_append_segment offset hring.blockSize_pos hlen (Nat.le_of_lt more)
  have hpos := hcount more
  simp only [Prices.client, hlength]
  omega

/-- What a step of a client costs the ring, the writer and the next point is less than the price of the
    point that it comes from. -/
theorem ClientStep.price_lt (h : Inv initial m a) (hs : ClientStep m t p p' m₁) :
    m.prices.buffered * m₁.state.ring.filled + m.prices.writer m₁.writer + m.prices.client p' <
      m.prices.buffered * m.state.ring.filled + m.prices.writer m.writer + m.prices.client p := by
  have hc := h.consistent
  have hring := hc.buffers.ring
  have hidle := m.prices.client_pos hs.not_idle
  by_cases happend : p.isAppending = true
  · exact hs.price_lt_append h hidle happend
  by_cases hheld : p.holdsAppend = true
  · exact hs.price_lt_flush h hheld (Bool.eq_false_iff.2 happend)
  cases hs with
  | admitAppend | admitFlush | askToStop | join | beginRead =>
    exact Nat.add_lt_add_left (Nat.lt_succ_self _) _
  | refuseRead | readFails | readDone | joinDegraded | sync => exact Nat.add_lt_add_left hidle _
  | readHit more hit =>
    have hlen := (Cache.length_get? hc.caches.valid hit).trans hc.caches.blockSize_eq
    exact Nat.add_lt_add_left (segment_price_lt hring hlen more) _
  | @readMiss _ _ _ block more _ _ _ ok =>
    obtain ⟨hfilled, hlen⟩ := hc.filled_eq block ok
    rw [← hfilled] at hlen
    exact Nat.add_lt_add_left (segment_price_lt hring hlen more) _
  | announceStop =>
    have hwake := m.prices.writer_wakeForItem m.writer
    show m.prices.buffered * m.state.ring.filled + m.prices.writer m.writer.wakeForItem + 3 <
      m.prices.buffered * m.state.ring.filled + m.prices.writer m.writer + 8
    omega
  | feedNothing _ feeds | feedRefused _ feeds | feedBlocked _ feeds | feedPart _ feeds
  | feedAll _ feeds => cases feeds <;> exact absurd rfl happend
  | refuseAppend => exact absurd rfl happend
  | refuseFlush | flushNothing | flushPads | flushWaits | flushFails | flushDone =>
    exact absurd rfl hheld

omit [Device δ] [LawfulDevice δ] in
theorem LoopStep.price_le (hl : LoopStep m m') (P : Prices) : P.writer m'.writer ≤ P.threads + 7 := by
  cases hl with
  | take => exact Nat.le_refl _
  | sleep => exact Nat.add_le_add_left (by omega) _
  | leave => exact Nat.add_le_add_left (by omega) _

/-- A step of the writer pays for the clients that it wakes. -/
theorem WriterStep.price_lt (h : Inv initial m a) (hs : WriterStep m m') :
    m.prices.buffered * m'.state.ring.filled + m.prices.writer m'.writer +
        m.prices.clients m'.clients <
      m.prices.buffered * m.state.ring.filled + m.prices.writer m.writer +
        m.prices.clients m.clients := by
  have hlater : ∀ {c c' : Nat}, c' < c →
      m.prices.buffered * m.state.ring.filled + (m.prices.threads + c') +
          m.prices.clients m.clients <
        m.prices.buffered * m.state.ring.filled + (m.prices.threads + c) +
          m.prices.clients m.clients := by
    intro c c' hc
    omega
  cases hs with
  | loop ready _ loop =>
    have hle := loop.price_le m.prices
    rw [loop.frame.1, loop.live_frame.1, ready]
    show _ < m.prices.buffered * m.state.ring.filled + (m.prices.threads + 8) + _
    omega
  | enter staged =>
    rw [staged]
    exact hlater (by omega)
  | done inFlight | failed inFlight | panicked inFlight =>
    rw [inFlight]
    exact hlater (by omega)
  | @complete offset block _ wrote _ loop =>
    have hle := loop.price_le m.prices
    have hwrites := h.consistent.writes
    rw [wrote] at hwrites
    have hfilled := hwrites.2.1
    have hpos := h.consistent.buffers.ring.blockSize_pos
    obtain ⟨drained, hclients⟩ : ∃ drained,
        (m.accounted offset).clients = m.clients.map (ClientPoint.wakeForPop drained) := ⟨_, rfl⟩
    have hwoken := m.prices.clients_woken (ClientPoint.woken_wakeForPop drained) m.clients
    -- the block popped pays
    have hpop : m.prices.buffered * m.state.ring.filled =
        m.prices.buffered * (m.state.ring.filled - m.state.ring.blockSize) +
          m.prices.buffered * m.state.ring.blockSize := by
      rw [← Nat.mul_add, Nat.sub_add_cancel hfilled]
    have hblock : m.prices.buffered ≤ m.prices.buffered * m.state.ring.blockSize :=
      Nat.le_mul_of_pos_right _ hpos
    have hbuffered : m.prices.buffered = m.clients.length + 8 := rfl
    have hthreads : m.prices.threads = m.clients.length := rfl
    rw [loop.frame.1, loop.live_frame.1, wrote, hpop, hclients]
    show m.prices.buffered * (m.state.ring.filled - m.state.ring.blockSize) + _ + _ <
      _ + (m.prices.threads + 5) + _
    omega
  | fail wrote =>
    rw [wrote]
    exact hlater (by omega)
  | record leaving =>
    rw [leaving]
    exact hlater (by omega)
  | announce announcing =>
    have hwoken := m.prices.clients_woken (ClientPoint.woken_wakeForPop true) m.clients
    have hclients : (m.clients.map ClientPoint.wakeForSpace).map ClientPoint.wakeForFlushed =
        m.clients.map (ClientPoint.wakeForPop true) := List.map_map
    have hthreads : m.prices.threads = m.clients.length := rfl
    rw [announcing]
    show m.prices.buffered * m.state.ring.filled + 0 +
      m.prices.clients ((m.clients.map ClientPoint.wakeForSpace).map ClientPoint.wakeForFlushed) <
        _ + (m.prices.threads + 2) + _
    rw [hclients]
    omega

/-- Every step lowers the potential. -/
theorem Inv.potential_lt (h : Inv initial m a) {actor : Actor} (hs : m.step? actor = some m') :
    m'.potential < m.potential := by
  have hblockSize := (h.ring_size (show m.move? (.step actor) = some m' from hs)).2
  match actor, hs with
  | .writer, hs =>
    have hstep := writerStep?_cases hs
    obtain ⟨wake, -, hclients⟩ := hstep.clients
    have hprices : m'.prices = m.prices := by
      rw [prices, prices, hblockSize, hclients, List.length_map]
    rw [potential, potential, hprices]
    exact hstep.price_lt h
  | .client t, hs =>
    obtain ⟨p, p', m₁, hp, hstep, rfl⟩ := clientStep?_cases hs
    have hlt := hstep.price_lt h
    have hclients : (m₁.setClient t p').clients = m.clients.set t p' := by
      show m₁.clients.set t p' = _
      rw [hstep.clients_eq]
    have hprices : (m₁.setClient t p').prices = m.prices := by
      rw [prices, prices, hblockSize, hclients, List.length_set]
    have hsum := m.prices.clients_set p' hp
    rw [potential, potential, hprices, hclients]
    show m.prices.buffered * m₁.state.ring.filled + m.prices.writer m₁.writer +
      m.prices.clients (m.clients.set t p') < _
    omega

/-! ### Runs -/

/-- Without new calls a run is no longer than the potential that it starts with. -/
theorem length_add_potential_le {device : δ} {settings : Settings} {clients : Nat} {m₀ : Machine δ}
    {past more : History δ} (h₀ : open? device settings clients = .ok m₀) (h : Reaches m₀ past m)
    (h' : Reaches m more m') (hsteps : more.OnlySteps) :
    more.length + m'.potential ≤ m.potential := by
  induction h' with
  | start => exact Nat.le_of_eq (Nat.zero_add _)
  | @move more m₁ m₂ move reached next ih =>
    obtain ⟨⟨flushed, hinv⟩, -⟩ := inv_of_reaches h₀ (h.trans reached)
    obtain ⟨actor, rfl⟩ : ∃ actor, move = .step actor := hsteps _ List.mem_cons_self
    have hlt := hinv.potential_lt next
    have ih := ih fun now hnow => hsteps now (List.mem_cons_of_mem _ hnow)
    rw [List.length_cons]
    omega
  | faults d _ _ ih => exact ih hsteps

/-- Without new calls a run comes to an end, and at its end every call is over. -/
structure Settles (m : Machine δ) : Prop where
  bounded : ∀ (more : History δ) (m' : Machine δ), Reaches m more m' → more.OnlySteps →
    more.length ≤ m.potential
  idle : (∀ actor, m.step? actor = none) → ∀ p ∈ m.clients, p.isIdle = true

theorem settles_of_reaches {device : δ} {settings : Settings} {clients : Nat} {m₀ : Machine δ}
    {past : History δ} (h₀ : open? device settings clients = .ok m₀) (h : Reaches m₀ past m) :
    Settles m := by
  refine ⟨fun more m' hmore hsteps => ?_, fun hstuck p hp => ?_⟩
  · exact Nat.le_trans (Nat.le_add_right ..) (length_add_potential_le h₀ h hmore hsteps)
  · obtain ⟨t, ht⟩ := List.mem_iff_getElem?.1 hp
    obtain ⟨⟨flushed, hinv⟩, -⟩ := inv_of_reaches h₀ h
    exact idle_of_stuck hinv (live_of_reaches h₀ h) hstuck ht

end Machine

end BlockLog
