import BlockLog.Proofs.Log.Liveness

/-! The cache keeps up with the device. A block that has been cached is as it is on the device, but for
    a short while: when its write has gone through and the writer has still to take the state lock to
    drop the copy. A read that holds the state lock then may be served the block as it was before
    that write. It is never served one that is older.

        writer:   staged ───────▶ inFlight ───────▶ wrote ───────▶ at the head of its loop
                  └ the copy      the device      └ the write     └ the copy is dropped again,
                    is dropped    has the block     has gone        the write is completed
                                                    through
        a read that finds it free fills the cache from the device at any point before `inFlight` -/

namespace BlockLog

/-- The block at `offset`, if its write has gone through and is still to be accounted for. -/
def WriterPoint.uncompleted? (w : WriterPoint) (offset : Nat) : Option Bytes :=
  match w with
  | .wrote start block (.ok ()) => if start = offset then some block else none
  | _ => none

theorem WriterPoint.uncompleted?_eq_some_iff {w : WriterPoint} {offset : Nat} {block : Bytes} :
    w.uncompleted? offset = some block ↔ w = .wrote offset block (.ok ()) := by
  constructor
  · intro h
    unfold uncompleted? at h
    split at h
    · split at h <;> cases h
      rename_i heq
      rw [heq]
    · cases h
  · rintro rfl
    exact if_pos rfl

theorem WriterPoint.exists_of_rewritten? {w : WriterPoint} {offset : Nat}
    (h : w.rewritten? = some offset) : ∃ block, w = .wrote offset block (.ok ()) := by
  unfold rewritten? at h
  split at h
  · cases h
    exact ⟨_, rfl⟩
  · cases h

@[simp] theorem WriterPoint.uncompleted?_wakeForItem (w : WriterPoint) (offset : Nat) :
    w.wakeForItem.uncompleted? offset = w.uncompleted? offset := by
  cases w <;> rfl

namespace Machine

variable {δ : Type}

/-- The offset and the block of the write that a move completes, if it completes one: the writer
    accounts for a block that is on the device. -/
def completes? (m : Machine δ) : Move → Option (Nat × Bytes)
  | .step .writer =>
    match m.writer with
    | .wrote offset block (.ok ()) => some (offset, block)
    | _ => none
  | _ => none

end Machine

/-- Block `b` as the last completed write of it has left it, and as it was at the start if there has
    been none. -/
def History.lastCompleted {δ : Type} (initial : Bytes) (blockSize b : Nat) : History δ → Bytes
  | [] => initial.block blockSize b
  | now :: earlier =>
    match now.before.completes? now.move with
    | some (offset, block) =>
      if offset = b * blockSize then block else lastCompleted initial blockSize b earlier
    | none => lastCompleted initial blockSize b earlier

namespace History

variable {δ : Type} {initial : Bytes} {blockSize : Nat} {past : History δ}

theorem lastCompleted_of_none {now : Moment δ} (h : now.before.completes? now.move = none) (b : Nat) :
    lastCompleted initial blockSize b (now :: past) = past.lastCompleted initial blockSize b := by
  rw [lastCompleted, h]

theorem lastCompleted_of_some {now : Moment δ} {offset : Nat} {block : Bytes}
    (h : now.before.completes? now.move = some (offset, block)) (b : Nat) :
    lastCompleted initial blockSize b (now :: past) =
      if offset = b * blockSize then block else past.lastCompleted initial blockSize b := by
  rw [lastCompleted, h]

end History

namespace Machine

open LawfulDevice

variable {δ : Type} [Device δ] [LawfulDevice δ] {initial : Bytes} {m m' m₁ : Machine δ} {a : Account}
  {t : Nat} {p p' : ClientPoint} {past : History δ} {blockSize : Nat}

/-- A block on the device is as the last completed write has left it, unless a write of it has gone
    through since and is still to be completed; and a cached block is as one of the two. -/
structure Fresh (initial : Bytes) (blockSize : Nat) (past : History δ) (m : Machine δ) : Prop where
  device : ∀ b, (contents m.device).block blockSize b =
    (m.writer.uncompleted? (b * blockSize)).getD (past.lastCompleted initial blockSize b)
  cached : ∀ b bytes, m.state.cache.get? b = some bytes →
    bytes = past.lastCompleted initial blockSize b ∨
      m.writer.uncompleted? (b * blockSize) = some bytes

/-- A move that completes no write and puts nothing on the device may drop blocks from the cache and
    fetch others from the device. -/
theorem Fresh.quiet (h : Fresh initial blockSize past m) {move : Move}
    (hnone : m.completes? move = none) (hcontents : contents m'.device = contents m.device)
    (hwriter : ∀ offset, m'.writer.uncompleted? offset = m.writer.uncompleted? offset)
    (hcache : ∀ b bytes, m'.state.cache.get? b = some bytes → m.state.cache.get? b = some bytes ∨
      bytes = (contents m.device).block blockSize b) :
    Fresh initial blockSize (⟨m, move, m'⟩ :: past) m' where
  device b := by
    rw [hcontents, hwriter, History.lastCompleted_of_none hnone]
    exact h.device b
  cached b bytes hb := by
    rw [hwriter, History.lastCompleted_of_none hnone]
    rcases hcache b bytes hb with hold | rfl
    · exact h.cached b bytes hold
    · rw [h.device b]
      cases hw : m.writer.uncompleted? (b * blockSize) with
      | none => exact .inl rfl
      | some block => exact .inr rfl

/-! ### Steps of a client -/

/-- No client writes to the device. -/
theorem ClientStep.contents_eq (hs : ClientStep m t p p' m₁) :
    contents m₁.device = contents m.device := by
  cases hs with
  | readMiss | readFails => exact contents_read ..
  | sync => exact contents_sync _
  | _ => rfl

/-- What a fetch leaves in the cache was there before or has come from the device. -/
theorem Consistent.get?_fetching (h : Consistent initial m a) {block b : Nat} {bytes : Bytes}
    (hb : (m.fetching block).state.cache.get? b = some bytes) :
    m.state.cache.get? b = some bytes ∨ bytes = (contents m.device).block m.state.ring.blockSize b := by
  have hvalid := h.caches.valid
  cases ho : (Device.read m.device (block * m.state.ring.blockSize) m.state.ring.blockSize).outcome with
  | ok =>
    obtain ⟨hbuffer, -⟩ := h.filled_eq block ho
    simp only [fetching, ho, hbuffer, Cache.get?_install_ok _ _ hvalid] at hb
    split at hb
    · split at hb <;> cases hb
      rename_i heq
      exact .inr (by rw [heq, Bytes.block])
    · exact .inl hb
  | error e =>
    simp only [fetching, ho, Cache.get?_install_error _ _ hvalid] at hb
    split at hb
    · cases hb
    · exact .inl hb

theorem ClientStep.get?_cases (h : Consistent initial m a) (hs : ClientStep m t p p' m₁) {b : Nat}
    {bytes : Bytes} (hb : m₁.state.cache.get? b = some bytes) :
    m.state.cache.get? b = some bytes ∨ bytes = (contents m.device).block m.state.ring.blockSize b := by
  cases hs with
  | readMiss | readFails => exact h.get?_fetching hb
  | _ => exact .inl hb

theorem Fresh.clientStep (hf : Fresh initial m.state.ring.blockSize past m)
    (h : Consistent initial m a) (hs : ClientStep m t p p' m₁) :
    Fresh initial m.state.ring.blockSize
      (⟨m, .step (.client t), m₁.setClient t p'⟩ :: past) (m₁.setClient t p') := by
  refine hf.quiet rfl hs.contents_eq (fun offset => ?_) fun b bytes hb => hs.get?_cases h hb
  exact hs.writer_congr (f := (·.uncompleted? offset)) (WriterPoint.uncompleted?_wakeForItem · offset)

/-! ### Steps of the writer -/

omit [Device δ] [LawfulDevice δ] in
/-- At the head of its loop the writer drops at most a block from the cache. -/
theorem LoopStep.get?_of_get? (hl : LoopStep m m') (h : m.state.cache.Valid) {b : Nat} {bytes : Bytes}
    (hb : m'.state.cache.get? b = some bytes) : m.state.cache.get? b = some bytes := by
  cases hl with
  | take =>
    replace hb : (m.state.cache.evict _).1.get? b = some bytes := hb
    rw [Cache.get?_evict h] at hb
    split at hb
    · cases hb
    · exact hb
  | sleep | leave => exact hb

omit [Device δ] [LawfulDevice δ] in
theorem LoopStep.uncompleted? (hl : LoopStep m m') (offset : Nat) :
    m'.writer.uncompleted? offset = none := by
  cases hl <;> rfl

/-- The write of a block goes through. -/
theorem Fresh.write (hf : Fresh initial m.state.ring.blockSize past m) (h : Consistent initial m a)
    {offset : Nat} {block : Bytes} (hw : m.writer = .inFlight offset block)
    (ho : (Device.write m.device offset block).outcome = .done) (hm : m'.state = m.state)
    (hd : m'.device = (Device.write m.device offset block).device)
    (hw' : m'.writer = .wrote offset block (.ok ())) :
    Fresh initial m.state.ring.blockSize (⟨m, .step .writer, m'⟩ :: past) m' := by
  have hcontents := h.contents_write hw ho
  rw [← hd] at hcontents
  have hwrites := h.writes
  rw [hw] at hwrites
  obtain ⟨rfl, rfl, hfilled⟩ := hwrites
  have hring := h.buffers.ring
  have hlen := Ring.length_oldest hring
  have hnone : m.completes? (.step .writer) = none := by
    simp only [completes?, hw]
  have hidle : ∀ offset, m.writer.uncompleted? offset = none := by
    intro offset
    rw [hw]
    rfl
  refine ⟨fun b => ?_, fun b bytes hb => ?_⟩
  · rw [hcontents, History.lastCompleted_of_none hnone, hw']
    by_cases hb : m.state.ring.tailOffset = b * m.state.ring.blockSize
    · have hwritten := Bytes.slice_overwrite (contents m.device) m.state.ring.tailOffset
        m.state.ring.oldest
      rw [hlen] at hwritten
      rw [WriterPoint.uncompleted?, if_pos hb, Bytes.block, ← hb, hwritten]
      rfl
    · have haligned := hring.offset_aligned
      have hblock : m.state.ring.blockSize ∣ b * m.state.ring.blockSize := Nat.dvd_mul_left ..
      have hold := hf.device b
      rw [hidle] at hold
      rw [WriterPoint.uncompleted?, if_neg hb, Bytes.block,
        Bytes.slice_overwrite_of_disjoint (h.tailOffset_le_contents hfilled)]
      · exact hold
      · rcases Nat.lt_or_gt_of_ne hb with hlt | hgt
        · exact .inr (by rw [hlen]; exact add_le_of_dvd_of_lt haligned hblock hlt)
        · exact .inl (add_le_of_dvd_of_lt hblock haligned hgt)
  · rw [hm] at hb
    rw [History.lastCompleted_of_none hnone]
    rcases hf.cached b bytes hb with hold | hnew
    · exact .inl hold
    · rw [hidle] at hnew
      cases hnew

/-- The writer completes the write and drops the copy that a read may have made before it. -/
theorem Fresh.complete (hf : Fresh initial m.state.ring.blockSize past m) (h : Consistent initial m a)
    {offset : Nat} {block : Bytes} (hw : m.writer = .wrote offset block (.ok ()))
    (hl : LoopStep (m.accounted offset) m') :
    Fresh initial m.state.ring.blockSize (⟨m, .step .writer, m'⟩ :: past) m' := by
  have hvalid := h.caches.valid
  have hpos := h.buffers.ring.blockSize_pos
  have hsome : m.completes? (.step .writer) = some (offset, block) := by
    simp only [completes?, hw]
  have hdevice : m'.device = m.device := hl.frame.2.2.2.1
  refine ⟨fun b => ?_, fun b bytes hb => .inl ?_⟩
  · rw [hdevice, hf.device b, hw, hl.uncompleted?, History.lastCompleted_of_some hsome,
      WriterPoint.uncompleted?]
    split <;> rfl
  · have hkept := hl.get?_of_get? (hvalid.evict _) hb
    replace hkept : (m.state.cache.evict (offset / m.state.ring.blockSize)).1.get? b = some bytes := hkept
    rw [Cache.get?_evict hvalid] at hkept
    split at hkept
    · cases hkept
    · rename_i hne
      have hother : offset ≠ b * m.state.ring.blockSize := by
        rintro rfl
        exact hne (Nat.mul_div_cancel b hpos).symm
      rw [History.lastCompleted_of_some hsome, if_neg hother]
      rcases hf.cached b bytes hkept with hold | hnew
      · exact hold
      · rw [hw, WriterPoint.uncompleted?, if_neg hother] at hnew
        cases hnew

theorem Fresh.writerStep (hf : Fresh initial m.state.ring.blockSize past m)
    (h : Consistent initial m a) (hs : WriterStep m m') :
    Fresh initial m.state.ring.blockSize (⟨m, .step .writer, m'⟩ :: past) m' := by
  have hvalid := h.caches.valid
  cases hs with
  | loop ready _ loop =>
    refine hf.quiet (by simp only [completes?, ready]) (by rw [loop.frame.2.2.2.1])
      (fun offset => ?_) fun b bytes hb => .inl (loop.get?_of_get? hvalid hb)
    rw [loop.uncompleted?, ready]
    rfl
  | enter staged =>
    refine hf.quiet (by simp only [completes?, staged]) rfl (fun offset => ?_) fun b bytes hb => .inl hb
    rw [staged]
    rfl
  | done inFlight done => exact hf.write h inFlight done rfl rfl rfl
  | failed inFlight failed =>
    refine hf.quiet (by simp only [completes?, inFlight])
      (contents_of_write_failed _ _ _ (by rw [failed]; simp)) (fun offset => ?_)
      fun b bytes hb => .inl hb
    rw [inFlight]
    rfl
  | panicked inFlight panicked =>
    refine hf.quiet (by simp only [completes?, inFlight])
      (contents_of_write_failed _ _ _ (by rw [panicked]; simp)) (fun offset => ?_)
      fun b bytes hb => .inl hb
    rw [inFlight]
    rfl
  | complete wrote _ loop => exact hf.complete h wrote loop
  | fail wrote =>
    refine hf.quiet (by simp only [completes?, wrote]) rfl (fun offset => ?_) fun b bytes hb => .inl ?_
    · rw [wrote]
      rfl
    · replace hb : (m.state.cache.evict _).1.get? b = some bytes := hb
      rw [Cache.get?_evict hvalid] at hb
      split at hb
      · cases hb
      · exact hb
  | record leaving =>
    refine hf.quiet (by simp only [completes?, leaving]) rfl (fun offset => ?_) fun b bytes hb => .inl hb
    rw [leaving]
    rfl
  | announce announcing =>
    refine hf.quiet (by simp only [completes?, announcing]) rfl (fun offset => ?_)
      fun b bytes hb => .inl hb
    rw [announcing]
    rfl

/-! ### Runs -/

theorem Fresh.move (hf : Fresh initial m.state.ring.blockSize past m) (h : Consistent initial m a)
    {move : Move} (hm : m.move? move = some m') :
    Fresh initial m.state.ring.blockSize (⟨m, move, m'⟩ :: past) m' := by
  match move, hm with
  | .submit t request, hm =>
    obtain ⟨hstate, hwriter, hdevice⟩ := submit?_frame hm
    refine hf.quiet rfl (congrArg contents hdevice) (fun offset => by rw [hwriter]) fun b bytes hb => ?_
    rw [hstate] at hb
    exact .inl hb
  | .step .writer, hm => exact hf.writerStep h (writerStep?_cases hm)
  | .step (.client t), hm =>
    obtain ⟨p, p', m₁, -, hs, rfl⟩ := clientStep?_cases hm
    exact hf.clientStep h hs

omit [LawfulDevice δ] in
/-- No slot comes or goes. -/
theorem length_cache {move : Move} (hm : m.move? move = some m') :
    m'.state.cache.length = m.state.cache.length := by
  have hloop : ∀ {m m' : Machine δ}, LoopStep m m' →
      m'.state.cache.length = m.state.cache.length := by
    intro m m' hl
    cases hl with
    | take => exact Cache.length_evict ..
    | sleep | leave => rfl
  match move, hm with
  | .submit t request, hm =>
    rw [(submit?_frame hm).1]
  | .step .writer, hm =>
    cases writerStep?_cases hm with
    | loop _ _ loop => exact hloop loop
    | complete _ _ loop => exact (hloop loop).trans (Cache.length_evict ..)
    | fail => exact Cache.length_evict ..
    | _ => rfl
  | .step (.client t), hm =>
    obtain ⟨p, p', m₁, -, hs, rfl⟩ := clientStep?_cases hm
    cases hs with
    | readMiss | readFails => exact Cache.length_install ..
    | _ => rfl

variable {device : δ} {settings : Settings} {clients : Nat} {m₀ : Machine δ}

theorem length_cache_of_reaches (h₀ : open? device settings clients = .ok m₀)
    (h : Reaches m₀ past m) : m.state.cache.length = settings.cacheBlocks := by
  induction h with
  | start =>
    obtain ⟨ring, cache, -, hcache, rfl⟩ := open?_eq_ok h₀
    exact (Cache.new_eq_ok hcache).2.2.1
  | move move _ next ih => exact (length_cache next).trans ih
  | faults d _ _ ih => exact ih

theorem fresh_of_reaches (h₀ : open? device settings clients = .ok m₀) (h : Reaches m₀ past m) :
    Fresh (contents device) (Device.blockSize device) past m := by
  induction h with
  | start =>
    obtain ⟨ring, cache, -, hcache, rfl⟩ := open?_eq_ok h₀
    refine ⟨fun b => rfl, fun b bytes hb => ?_⟩
    rw [show (start device ring cache clients).state.cache.get? b = none from
      (Cache.new_eq_ok hcache).2.2.2 b] at hb
    cases hb
  | move move reached next ih =>
    obtain ⟨⟨flushed, hinv⟩, -, hblockSize⟩ := inv_of_reaches h₀ reached
    rw [← hblockSize] at ih ⊢
    exact ih.move hinv.consistent next
  | faults d _ same ih =>
    exact ⟨fun b => (congrArg (Bytes.block · _ b) same.2).trans (ih.device b), ih.cached⟩

omit [LawfulDevice δ] in
/-- A step that counts a hit serves a block from the cache. -/
theorem served_of_hit (hm : m.step? (.client t) = some m')
    (hhits : m'.state.totals.hits ≠ m.state.totals.hits) :
    ∃ (offset len : Nat) (got bytes : Bytes), m.clients[t]? = some (.reading offset len got) ∧
      m.state.cache.get? ((offset + got.length) / m.state.ring.blockSize) = some bytes ∧
      m'.clients[t]? = some (.reading offset len (got ++
        bytes.slice ((offset + got.length) % m.state.ring.blockSize)
          (segment m.state.ring.blockSize offset len got.length).count)) := by
  obtain ⟨p, p', m₁, hp, hs, rfl⟩ := clientStep?_cases hm
  have hself := (hs.placed hp).self
  cases hs with
  | readHit more hit => exact ⟨_, _, _, _, hp, hit, hself⟩
  | _ => exact absurd rfl hhits

/-- Every valid slot has a block that belongs there, as the block is on the device, unless its write has
    gone through and the writer has still to account for it; and it is never older than the last
    completed write of the block has left it. The same goes for what a read is served from the
    cache. A block on the device itself is as its last completed write has left it, or as the write
    that is still to be completed. -/
theorem cache_coherent (h₀ : open? device settings clients = .ok m₀) (h : Reaches m₀ past m) :
    (∀ i b bytes, m.state.cache.held? i = some (b, bytes) → b % settings.cacheBlocks = i ∧
      (bytes = (contents m.device).block (Device.blockSize device) b ∨
        ∃ block, m.writer = .wrote (b * Device.blockSize device) block (.ok ())) ∧
      (bytes = past.lastCompleted (contents device) (Device.blockSize device) b ∨
        m.writer = .wrote (b * Device.blockSize device) bytes (.ok ()))) ∧
    (∀ t m', m.step? (.client t) = some m' → m'.state.totals.hits ≠ m.state.totals.hits →
      ∃ (offset len : Nat) (got : Bytes) (b : Nat) (bytes : Bytes),
        m.clients[t]? = some (.reading offset len got) ∧
        b = (offset + got.length) / Device.blockSize device ∧
        (bytes = past.lastCompleted (contents device) (Device.blockSize device) b ∨
          m.writer = .wrote (b * Device.blockSize device) bytes (.ok ())) ∧
        m'.clients[t]? = some (.reading offset len (got ++
          bytes.slice ((offset + got.length) % Device.blockSize device)
            (segment (Device.blockSize device) offset len got.length).count))) ∧
    (∀ b, (contents m.device).block (Device.blockSize device) b =
        past.lastCompleted (contents device) (Device.blockSize device) b ∨
      m.writer = .wrote (b * Device.blockSize device)
        ((contents m.device).block (Device.blockSize device) b) (.ok ())) := by
  obtain ⟨⟨flushed, hinv⟩, -, hblockSize⟩ := inv_of_reaches h₀ h
  have hcaches := hinv.consistent.caches
  have hfresh := fresh_of_reaches h₀ h
  have hlength : m.state.cache.slots.length = settings.cacheBlocks := length_cache_of_reaches h₀ h
  have hcurrent : ∀ b bytes, m.state.cache.get? b = some bytes →
      bytes = past.lastCompleted (contents device) (Device.blockSize device) b ∨
        m.writer = .wrote (b * Device.blockSize device) bytes (.ok ()) := fun b bytes hb =>
    (hfresh.cached b bytes hb).imp_right WriterPoint.uncompleted?_eq_some_iff.1
  refine ⟨fun i b bytes hheld => ?_, fun t m' hm hhits => ?_, fun b => ?_⟩
  · obtain ⟨hplace, hb⟩ := (Cache.held?_eq_some_iff hcaches.valid).1 hheld
    rw [Cache.placeOf, hlength] at hplace
    refine ⟨hplace, ?_, hcurrent b bytes hb⟩
    by_cases hw : m.writer.rewritten? = some (b * m.state.ring.blockSize)
    · rw [hblockSize] at hw
      exact .inr (WriterPoint.exists_of_rewritten? hw)
    · refine .inl ((hcaches.coherent b bytes hb hw).trans ?_)
      rw [hblockSize, Bytes.block]
  · obtain ⟨offset, len, got, bytes, hp, hb, hp'⟩ := served_of_hit hm hhits
    rw [hblockSize] at hb hp'
    exact ⟨offset, len, got, _, bytes, hp, rfl, hcurrent _ bytes hb, hp'⟩
  · rw [hfresh.device b]
    cases hw : m.writer.uncompleted? (b * Device.blockSize device) with
    | none => exact .inl rfl
    | some block => exact .inr (WriterPoint.uncompleted?_eq_some_iff.1 hw)

/-- A read fills the cache with a block that the writer has taken; then the write goes through. -/
theorem cache_coherent_rewritten : ∃ (m₀ m : Machine Device.Memory) (past : History Device.Memory),
    open? { blockSize := 2, contents := .ofList [] } { bufferBlocks := 2, cacheBlocks := 1 } 2 =
      .ok m₀ ∧ Reaches m₀ past m ∧
    m.state.cache.held? 0 = some (0, [1, 0]) ∧ (contents m.device).block 2 0 = [1, 2] ∧
    past.lastCompleted [] 2 0 = [1, 0] ∧ ∃ block, m.writer = .wrote 0 block (.ok ()) := by
  let moves : List Move :=
    [.submit 0 (.append [1]), .step (.client 0), .step (.client 0), .submit 0 (.read 0 1),
      .step (.client 0), .step (.client 0), .step .writer, .step .writer, .step .writer,
      .step .writer, .step (.client 0), .submit 1 (.append [2]), .step (.client 1),
      .step (.client 1), .step .writer, .step (.client 0), .step (.client 0), .step .writer,
      .step .writer]
  have h₀ : open? ({ blockSize := 2, contents := .ofList [] } : Device.Memory)
      { bufferBlocks := 2, cacheBlocks := 1 } 2 = .ok _ := rfl
  refine ⟨_, _, _, h₀, reaches_run? moves (by decide +kernel), by decide +kernel, by decide +kernel,
    by decide +kernel, ?_⟩
  obtain ⟨-, hdevice | hwrote, -⟩ :=
    (cache_coherent h₀ (reaches_run? moves (by decide +kernel))).1 0 0 [1, 0] (by decide +kernel)
  · exact absurd hdevice (by decide +kernel)
  · exact hwrote

end Machine

end BlockLog
