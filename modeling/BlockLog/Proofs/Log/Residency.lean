import BlockLog.Proofs.Log.Lookup

/-! Which blocks the cache has. Each slot has the block that was looked up there last, if that lookup went
    through; and the writer takes a block out of its slot before it writes it. So what a lookup will
    find can be told of the lookups and the writes before it, without a cache.

        slot:     ─┤ a ├────┤ b ├──────────────────────┤   ├──────┤ b ├──
        lookups:   a: miss   b: miss   b: hit               b: miss
        writes:                               b: attempted -/

namespace BlockLog

/-- The offset of the block that the writer has taken, until the write of it is accounted for. -/
def WriterPoint.carried? : WriterPoint → Option Nat
  | .staged offset _ | .inFlight offset _ | .wrote offset _ _ => some offset
  | _ => none

/-- The offset of the block that the writer is about to write. -/
def WriterPoint.unwritten? : WriterPoint → Option Nat
  | .staged offset _ | .inFlight offset _ => some offset
  | _ => none

@[simp] theorem WriterPoint.carried?_wakeForItem (w : WriterPoint) :
    w.wakeForItem.carried? = w.carried? := by
  cases w <;> rfl

@[simp] theorem WriterPoint.unwritten?_wakeForItem (w : WriterPoint) :
    w.wakeForItem.unwritten? = w.unwritten? := by
  cases w <;> rfl

theorem WriterPoint.unwritten?_eq_none {w : WriterPoint} (h : w.carried? = none) :
    w.unwritten? = none := by
  cases w <;> first | rfl | cases h

/-- A writer with less than a block in the ring has taken none. -/
theorem Writes.carried?_eq_none {r : Ring} {failure : Option Degradation} {length durable : Nat}
    {w : WriterPoint} (h : Writes r failure length durable w) (he : r.filled < r.blockSize) :
    w.carried? = none := by
  match w, h with
  | .staged .., h | .inFlight .., h => exact absurd h.2.2 (Nat.not_le.2 he)
  | .wrote _ _ (.ok ()), h => exact absurd h.2.1 (Nat.not_le.2 he)
  | .wrote _ _ (.error _), h => exact absurd h.2 (Nat.not_le.2 he)
  | .ready, _ | .asleep, _ | .leaving _, _ | .announcing _, _ | .gone _, _ => rfl

section

variable {δ : Type} [Device δ] {slots blockSize b : Nat}

/-- A move that looks up no block of the slot of `b` and does not attempt to write `b`. -/
structure Moment.Spares (now : Moment δ) (slots blockSize b : Nat) : Prop where
  slot : ∀ l, now.before.lookup? now.move = some l → l.block % slots ≠ b % slots
  block : ∀ block outcome,
    now.before.deviceCall? now.move ≠ some (.write (b * blockSize) block outcome)

namespace History

/-- The latest lookup of a block of the slot of `b` was a lookup of `b` that went through, and the writer
    has not attempted to write `b` since. -/
def Keeps (slots blockSize b : Nat) (past : History δ) : Prop :=
  ∃ since now earlier l, past = since ++ now :: earlier ∧
    now.before.lookup? now.move = some l ∧ l.block = b ∧ l.succeeded = true ∧
    ∀ later ∈ since, later.Spares slots blockSize b

theorem keeps_cons_iff {now : Moment δ} {past : History δ} :
    Keeps slots blockSize b (now :: past) ↔
      (∃ l, now.before.lookup? now.move = some l ∧ l.block = b ∧ l.succeeded = true) ∨
        now.Spares slots blockSize b ∧ past.Keeps slots blockSize b := by
  constructor
  · rintro ⟨since, first, earlier, l, hpast, hl, hblock, hok, hspared⟩
    cases since with
    | nil =>
      cases hpast
      exact .inl ⟨l, hl, hblock, hok⟩
    | cons later since =>
      cases hpast
      obtain ⟨hnow, hrest⟩ := List.forall_mem_cons.1 hspared
      exact .inr ⟨hnow, since, first, earlier, l, rfl, hl, hblock, hok, hrest⟩
  · rintro (⟨l, hl, hblock, hok⟩ | ⟨hnow, since, first, earlier, l, rfl, hl, hblock, hok, hrest⟩)
    · exact ⟨[], now, past, l, rfl, hl, hblock, hok, fun _ hlater => by cases hlater⟩
    · exact ⟨now :: since, first, earlier, l, rfl, hl, hblock, hok,
        List.forall_mem_cons.2 ⟨hnow, hrest⟩⟩

/-- Without a lookup it is only a write that matters. -/
theorem keeps_cons_of_none {now : Moment δ} {past : History δ}
    (h : now.before.lookup? now.move = none) : Keeps slots blockSize b (now :: past) ↔
      (∀ block outcome, now.before.deviceCall? now.move ≠
        some (.write (b * blockSize) block outcome)) ∧ past.Keeps slots blockSize b := by
  rw [keeps_cons_iff, h]
  constructor
  · rintro (⟨l, hl, -⟩ | ⟨hspares, hkeeps⟩)
    · cases hl
    · exact ⟨hspares.block, hkeeps⟩
  · rintro ⟨hblock, hkeeps⟩
    refine .inr ⟨⟨fun l hl => ?_, hblock⟩, hkeeps⟩
    cases h.symm.trans hl

end History

end

namespace Machine

variable {δ : Type} [Device δ] [LawfulDevice δ] {initial : Bytes} {m m' m₁ : Machine δ} {a : Account}
  {t : Nat} {p p' : ClientPoint} {past during : History δ} {slots blockSize : Nat}

/-- A block that the writer has taken is not in the cache, and any other is there if its slot keeps it. -/
structure Resident (slots blockSize : Nat) (past : History δ) (m : Machine δ) : Prop where
  dropped : ∀ b, m.writer.carried? = some (b * blockSize) → m.state.cache.get? b = none
  kept : ∀ b, (m.state.cache.get? b).isSome = true ↔
    past.Keeps slots blockSize b ∧ m.writer.unwritten? ≠ some (b * blockSize)

omit [LawfulDevice δ] in
/-- A move that looks no block up and writes none. -/
theorem Resident.quiet (hr : Resident slots blockSize past m) {move : Move}
    (hlookup : m.lookup? move = none)
    (hcall : ∀ offset block outcome, m.deviceCall? move ≠ some (.write offset block outcome))
    (hget : m'.state.cache.get? = m.state.cache.get?)
    (hcarried : m'.writer.carried? = m.writer.carried? ∨ m'.writer.carried? = none)
    (hunwritten : m'.writer.unwritten? = m.writer.unwritten?) :
    Resident slots blockSize (⟨m, move, m'⟩ :: past) m' where
  dropped b hb := by
    rw [hget]
    rcases hcarried with h | h <;> rw [h] at hb
    · exact hr.dropped b hb
    · cases hb
  kept b := by
    rw [hget, hunwritten, hr.kept b, History.keeps_cons_of_none hlookup,
      and_iff_right fun block outcome => hcall _ block outcome]

/-! ### Steps of a client -/

theorem Resident.clientStep
    (hr : Resident m.state.cache.length m.state.ring.blockSize past m) (h : Consistent initial m a)
    (hread : p.isReading = true → m.state.ring.filled < m.state.ring.blockSize)
    (hp : m.clients[t]? = some p) (hs : ClientStep m t p p' m₁) :
    Resident m.state.cache.length m.state.ring.blockSize
      (⟨m, .step (.client t), m₁.setClient t p'⟩ :: past) (m₁.setClient t p') := by
  have hcarried : m₁.writer.carried? = m.writer.carried? :=
    hs.writer_congr WriterPoint.carried?_wakeForItem
  have hunwritten : m₁.writer.unwritten? = m.writer.unwritten? :=
    hs.writer_congr WriterPoint.unwritten?_wakeForItem
  rcases hs.lookup?_cases hp with ⟨hnone, hcache, -⟩ | ⟨start, count, got, l, hsome, hlooks⟩
  · refine hr.quiet hnone deviceCall?_client_ne_write ?_ (.inl hcarried) hunwritten
    exact congrArg Cache.get? hcache
  · have hfree := h.writes.carried?_eq_none (hread (by rw [hlooks.reading]; rfl))
    refine ⟨fun b hb => ?_, fun b => ?_⟩
    · rw [← hcarried] at hfree
      exact absurd (hfree.symm.trans hb) nofun
    · have hwriter : m₁.writer.unwritten? ≠ some (b * m.state.ring.blockSize) := by
        rw [hunwritten, WriterPoint.unwritten?_eq_none hfree]
        nofun
      have hkept := hr.kept b
      rw [← hunwritten, and_iff_left hwriter] at hkept
      show (m₁.state.cache.get? b).isSome = true ↔ _ ∧ m₁.writer.unwritten? ≠ _
      rw [hlooks.cached h.caches.valid b, and_iff_left hwriter, History.keeps_cons_iff]
      split
      · rename_i hplace
        rw [Bool.and_eq_true, decide_eq_true_eq]
        constructor
        · rintro ⟨rfl, hok⟩
          exact .inl ⟨l, hsome, rfl, hok⟩
        · rintro (⟨l', hl', rfl, hok⟩ | ⟨hspares, -⟩)
          · cases hsome.symm.trans hl'
            exact ⟨rfl, hok⟩
          · exact absurd hplace.symm (hspares.slot l hsome)
      · rename_i hplace
        rw [hkept]
        constructor
        · intro hkeeps
          refine .inr ⟨⟨fun l' hl' heq => ?_, deviceCall?_client_ne_write _⟩, hkeeps⟩
          cases hsome.symm.trans hl'
          exact hplace heq.symm
        · rintro (⟨l', hl', rfl, -⟩ | ⟨-, hkeeps⟩)
          · cases hsome.symm.trans hl'
            exact absurd rfl hplace
          · exact hkeeps

/-! ### Steps of the writer -/

omit [Device δ] [LawfulDevice δ] in
/-- At the head of its loop the writer drops the block that it takes, if it takes one. -/
theorem LoopStep.unwritten?_eq (hl : LoopStep m m') : m'.writer.unwritten? = m'.writer.carried? := by
  cases hl <;> rfl

theorem LoopStep.get?_eq (h : Consistent initial m a) (hl : LoopStep m m') (b : Nat) :
    m'.state.cache.get? b =
      if m'.writer.carried? = some (b * m.state.ring.blockSize) then none
      else m.state.cache.get? b := by
  cases hl with
  | take =>
    show (m.state.cache.evict _).1.get? b =
      if some m.state.ring.tailOffset = some (b * m.state.ring.blockSize) then none else _
    simp only [Cache.get?_evict h.caches.valid, Option.some.injEq, h.tailOffset_eq_mul_iff]
  | sleep | leave => exact (if_neg nofun).symm

/-- The writer goes on to the head of its loop. -/
theorem LoopStep.resident {m₀ : Machine δ} (hl : LoopStep m₀ m') (h : Consistent initial m₀ a)
    (hr : Resident slots m₀.state.ring.blockSize past m) (hw : m.writer.isInFlight = false)
    (hnone : m.writer.unwritten? = none) (hget : m₀.state.cache.get? = m.state.cache.get?) :
    Resident slots m₀.state.ring.blockSize (⟨m, .step .writer, m'⟩ :: past) m' where
  dropped b hb := by rw [hl.get?_eq h, if_pos hb]
  kept b := by
    have hkept := hr.kept b
    rw [hnone, and_iff_left (by nofun)] at hkept
    have hcall : ∀ block outcome, m.deviceCall? (.step .writer) ≠
        some (.write (b * m₀.state.ring.blockSize) block outcome) := by
      rw [deviceCall?_of_not_inFlight hw]
      nofun
    rw [hl.get?_eq h, hl.unwritten?_eq, hget, History.keeps_cons_of_none rfl, and_iff_right hcall,
      ← hkept]
    split
    · rename_i hcarried
      exact ⟨nofun, fun hn => absurd hcarried hn.2⟩
    · rename_i hcarried
      exact (and_iff_left hcarried).symm

omit [LawfulDevice δ] in
/-- The write of a block is attempted. -/
theorem Resident.attempt (hr : Resident slots blockSize past m) {offset : Nat} {block : Bytes}
    (hw : m.writer = .inFlight offset block) (hm : m'.state = m.state)
    (hcarried : m'.writer.carried? = some offset ∨ m'.writer.carried? = none)
    (hunwritten : m'.writer.unwritten? = none) :
    Resident slots blockSize (⟨m, .step .writer, m'⟩ :: past) m' where
  dropped b hb := by
    rw [hm]
    refine hr.dropped b ?_
    rcases hcarried with h | h <;> rw [h] at hb
    · rw [hw]
      exact hb
    · cases hb
  kept b := by
    rw [hm, hr.kept b, hunwritten, hw, History.keeps_cons_of_none rfl]
    dsimp only
    rw [deviceCall?_of_inFlight hw]
    constructor
    · rintro ⟨hkeeps, hne⟩
      refine ⟨⟨fun block' outcome heq => ?_, hkeeps⟩, nofun⟩
      cases heq
      exact hne rfl
    · rintro ⟨⟨hne, hkeeps⟩, -⟩
      refine ⟨hkeeps, fun heq => ?_⟩
      cases heq
      exact hne _ _ rfl

/-- Dropping the block that the writer has written drops nothing any more. -/
theorem Resident.get?_evict (hr : Resident slots m.state.ring.blockSize past m)
    (h : Consistent initial m a) {offset : Nat} {block : Bytes} {outcome : Except DeviceError Unit}
    (hw : m.writer = .wrote offset block outcome) :
    (m.state.cache.evict (offset / m.state.ring.blockSize)).1.get? = m.state.cache.get? := by
  have hwrites := h.writes
  rw [hw] at hwrites
  obtain rfl : offset = m.state.ring.tailOffset := by
    match outcome, hwrites with
    | .ok (), hwrites => exact hwrites.1
    | .error _, hwrites => exact hwrites.1
  funext b
  rw [Cache.get?_evict h.caches.valid]
  split
  · rename_i hb
    refine (hr.dropped b ?_).symm
    rw [hw, ← (h.tailOffset_eq_mul_iff b).2 hb]
    rfl
  · rfl

theorem Resident.writerStep (hr : Resident slots m.state.ring.blockSize past m)
    (h : Consistent initial m a) (hs : WriterStep m m') :
    Resident slots m.state.ring.blockSize (⟨m, .step .writer, m'⟩ :: past) m' := by
  have hcall : m.writer.isInFlight = false → ∀ offset block outcome,
      m.deviceCall? (.step .writer) ≠ some (.write offset block outcome) := by
    intro hw
    rw [deviceCall?_of_not_inFlight hw]
    nofun
  cases hs with
  | loop ready _ loop =>
    exact loop.resident h hr (by rw [ready]; rfl) (by rw [ready]; rfl) rfl
  | enter staged =>
    exact hr.quiet rfl (hcall (by rw [staged]; rfl)) rfl (.inl (by rw [staged]; rfl))
      (by rw [staged]; rfl)
  | done inFlight => exact hr.attempt inFlight rfl (.inl rfl) rfl
  | failed inFlight => exact hr.attempt inFlight rfl (.inl rfl) rfl
  | panicked inFlight => exact hr.attempt inFlight rfl (.inr rfl) rfl
  | complete wrote _ loop =>
    exact loop.resident (h.account wrote) hr (by rw [wrote]; rfl) (by rw [wrote]; rfl)
      (hr.get?_evict h wrote)
  | fail wrote =>
    exact hr.quiet rfl (hcall (by rw [wrote]; rfl)) (hr.get?_evict h wrote) (.inr rfl)
      (by rw [wrote]; rfl)
  | record leaving =>
    exact hr.quiet rfl (hcall (by rw [leaving]; rfl)) rfl (.inr rfl) (by rw [leaving]; rfl)
  | announce announcing =>
    exact hr.quiet rfl (hcall (by rw [announcing]; rfl)) rfl (.inr rfl) (by rw [announcing]; rfl)

/-! ### Runs -/

variable {device : δ} {settings : Settings} {m₀ : Machine δ}

/-- A read that is alone finds less than a block in the ring for as long as it lasts. -/
theorem filled_lt_of_reaches (h₀ : open? device settings 1 = .ok m₀) (h : Reaches m₀ past m)
    (hp : m.clients[t]? = some p) (hread : p.isReading = true) :
    m.state.ring.filled < m.state.ring.blockSize := by
  induction h generalizing t p with
  | start =>
    obtain ⟨ring, cache, -, -, rfl⟩ := open?_eq_ok h₀
    rw [List.eq_of_mem_replicate (List.mem_of_getElem? hp)] at hread
    cases hread
  | @move past m m' move reached next ih =>
    obtain ⟨⟨flushed, hinv⟩, -⟩ := inv_of_reaches h₀ reached
    match move, next with
    | .submit u request, next =>
      rw [(submit?_frame next).1]
      rcases (submit?_placed next).cases hp with ⟨-, rfl⟩ | ⟨-, hp⟩
      · cases request <;> cases hread
      · exact ih hp hread
    | .step .writer, next =>
      have hs := writerStep?_cases next
      obtain ⟨-, hfilled, hblockSize⟩ := hs.totals_eq
      obtain ⟨q, hq, hwoken⟩ := hs.woken_from hp
      rw [hwoken.isReading] at hread
      rw [hblockSize]
      exact Nat.lt_of_le_of_lt hfilled (ih hq hread)
    | .step (.client u), next =>
      obtain ⟨q, q', m₁, hq, hs, rfl⟩ := clientStep?_cases next
      rcases (hs.placed hq).cases hp with ⟨-, rfl⟩ | ⟨hne, hp⟩
      · show m₁.state.ring.filled < m₁.state.ring.blockSize
        exact hs.filled_lt_of_isReading hinv hq (ih hq) hread
      · have hone := length_clients_of_reaches h₀ reached
        have ht := (List.getElem?_eq_some_iff.1 hp).1
        have hu := (List.getElem?_eq_some_iff.1 hq).1
        omega
  | faults d _ _ ih => exact ih hp hread

theorem resident_of_reaches (h₀ : open? device settings 1 = .ok m₀) (h : Reaches m₀ past m) :
    Resident settings.cacheBlocks (Device.blockSize device) past m := by
  induction h with
  | start =>
    obtain ⟨ring, cache, -, hcache, rfl⟩ := open?_eq_ok h₀
    have hnone := (Cache.new_eq_ok hcache).2.2.2
    refine ⟨fun b _ => hnone b, fun b => ⟨fun hsome => ?_, fun hkeeps => ?_⟩⟩
    · rw [show (start device ring cache 1).state.cache.get? b = none from hnone b] at hsome
      cases hsome
    · obtain ⟨⟨since, now, earlier, l, hpast, -⟩, -⟩ := hkeeps
      exact absurd hpast (by simp)
  | @move past m m' move reached next ih =>
    obtain ⟨⟨flushed, hinv⟩, -, hblockSize⟩ := inv_of_reaches h₀ reached
    have hslots := length_cache_of_reaches h₀ reached
    rw [← hblockSize, ← hslots] at ih ⊢
    match move, next with
    | .submit t request, next =>
      obtain ⟨hstate, hwriter, -⟩ := submit?_frame next
      exact ih.quiet rfl nofun (by rw [hstate]) (.inl (by rw [hwriter])) (by rw [hwriter])
    | .step .writer, next => exact ih.writerStep hinv.consistent (writerStep?_cases next)
    | .step (.client t), next =>
      obtain ⟨p, p', m₁, hp, hs, rfl⟩ := clientStep?_cases next
      exact ih.clientStep hinv.consistent (filled_lt_of_reaches h₀ reached hp) hp hs
  | faults d _ _ ih => exact ⟨ih.dropped, ih.kept⟩

/-- A lookup of a block hits just if the latest lookup in its slot was one of the same block and went
    through, and the writer has not attempted to write the block since. -/
theorem hit_iff_keeps (h₀ : open? device settings 1 = .ok m₀) (h : Reaches m₀ past m) {move : Move}
    {l : Lookup} (hl : m.lookup? move = some l) :
    l.hit = true ↔ past.Keeps settings.cacheBlocks (Device.blockSize device) l.block := by
  obtain ⟨t, offset, len, got, -, hp, -, -, hcase⟩ := lookup?_eq_some hl
  obtain ⟨⟨flushed, hinv⟩, -⟩ := inv_of_reaches h₀ h
  have hfree := hinv.consistent.writes.carried?_eq_none (filled_lt_of_reaches h₀ h hp rfl)
  have hkept := (resident_of_reaches h₀ h).kept l.block
  rw [WriterPoint.unwritten?_eq_none hfree, and_iff_left (by nofun)] at hkept
  rw [← hkept]
  rcases hcase with ⟨block, hit, hhit, -⟩ | ⟨miss, hmiss, -⟩
  · rw [hhit, hit]
    rfl
  · rw [hmiss, miss]
    rfl

/-- A read that answers has looked up each block of its range once, in order, and has put its answer
    together from the segments; each lookup is counted as a hit or as a miss, and each miss is a
    device read. A lookup hits just if its slot keeps the block; and over a whole run the misses are
    the device reads that have gone through. No read goes on for ever. -/
theorem lookups_exact (h₀ : open? device settings 1 = .ok m₀) (h : Reaches m₀ past m) :
    (∀ offset len m₁ during m' data, m.submit? 0 (.read offset len) = some m₁ →
      Reaches m₁ during m' → during.OnlyBy 0 → m'.reply? 0 = some (.ok (.bytes data)) →
      during.lookups.map Lookup.block = touched (Device.blockSize device) offset len ∧
      Tiles (Device.blockSize device) offset (offset + len) (during.lookups.map Lookup.segment) ∧
      (during.lookups.map Lookup.bytes).flatten = data ∧
      (∀ l ∈ during.lookups, l.bytes.length = l.segment.count) ∧
      m'.state.totals.hits + m'.state.totals.misses = m.state.totals.hits +
        m.state.totals.misses + (touched (Device.blockSize device) offset len).length ∧
      m'.state.totals.misses =
        m.state.totals.misses + during.deviceCalls.countP DeviceCall.isRead) ∧
    (∀ move l, m.lookup? move = some l →
      (l.hit = true ↔ past.Keeps settings.cacheBlocks (Device.blockSize device) l.block)) ∧
    past.deviceCalls.countP DeviceCall.hasRead = m.state.totals.misses ∧
    m.Settles := by
  refine ⟨fun offset len m₁ during m' data hgiven hduring honly hreply => ?_,
    fun move l hl => hit_iff_keeps h₀ h hl, ?_, settles_of_reaches h₀ h⟩
  · obtain ⟨p, hp, hreads⟩ := reads_of_reaches h₀ h hgiven hduring honly
    cases (idle_of_reply? hreply).symm.trans hp
    obtain ⟨got, hdata, hlen, hcovers⟩ := hreads
    cases hdata
    obtain ⟨hhits, hmisses⟩ := counted_of_reaches hduring
    obtain ⟨hanswered, hfetched⟩ := hcovers.countP_eq
    have hblocks := hcovers.blocks
    have htiles := hcovers.tiles
    rw [hlen, Nat.sub_self] at hblocks
    replace hblocks : during.lookups.map Lookup.block = _ :=
      (List.append_nil _).symm.trans hblocks
    rw [hlen] at htiles
    rw [(submit?_frame hgiven).1] at hhits hmisses
    refine ⟨hblocks, htiles, hcovers.bytes, hcovers.sized, ?_, ?_⟩
    · rw [← hblocks, List.length_map]
      omega
    · rw [hmisses, hfetched, during.reads.1]
  · obtain ⟨ring, cache, -, -, rfl⟩ := open?_eq_ok h₀
    rw [past.reads.2, (counted_of_reaches h).2]
    exact (Nat.zero_add _).symm

/-- The second of two reads of three blocks, with two slots for them. The blocks that share a slot have
    driven each other out. -/
theorem lookups_exact_collision : ∃ (m₀ m m₁ m' : Machine Device.Memory)
    (past during : History Device.Memory),
    open? { blockSize := 2, contents := .ofList [] } { bufferBlocks := 4, cacheBlocks := 2 } 1 =
      .ok m₀ ∧ Reaches m₀ past m ∧ m.submit? 0 (.read 0 6) = some m₁ ∧ Reaches m₁ during m' ∧
    during.OnlyBy 0 ∧ m'.reply? 0 = some (.ok (.bytes [1, 2, 3, 4, 5, 6])) ∧
    during.lookups.map Lookup.hit = [false, true, false] ∧
    during.lookups.map Lookup.block = touched 2 0 6 ∧
    m'.state.totals.misses = m.state.totals.misses + during.deviceCalls.countP DeviceCall.isRead := by
  let steps (n : Nat) : List Move := List.replicate n (.step (.client 0))
  let moves : List Move := .submit 0 (.append [1, 2, 3, 4, 5, 6]) :: steps 2 ++
    List.replicate 10 (.step .writer) ++ .submit 0 (.read 0 6) :: steps 7
  have h₀ : open? ({ blockSize := 2, contents := .ofList [] } : Device.Memory)
      { bufferBlocks := 4, cacheBlocks := 2 } 1 = .ok _ := rfl
  refine ⟨_, _, _, _, _, _, h₀, reaches_run? moves (by decide +kernel),
    (Option.some_get (by decide +kernel)).symm, reaches_run? (steps 7) (by decide +kernel),
    by decide +kernel, by decide +kernel, by decide +kernel, ?_⟩
  obtain ⟨hblocks, -, -, -, -, hmisses⟩ :=
    (lookups_exact h₀ (reaches_run? moves (by decide +kernel))).1 0 6 _ _ _ [1, 2, 3, 4, 5, 6]
      (Option.some_get (by decide +kernel)).symm (reaches_run? (steps 7) (by decide +kernel))
      (by decide +kernel) (by decide +kernel)
  exact ⟨hblocks, hmisses⟩

end Machine

end BlockLog
