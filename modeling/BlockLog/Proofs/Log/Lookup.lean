import BlockLog.Proofs.Log.Independence

/-! The lookups of a read. After its flush a read goes through its range block by block and looks each
    one up: a hit takes the segment that it is after out of the cache, a miss fetches the block from
    the device first. What a run has looked up can be told of it, and the totals of the log, the
    calls to the device and the bytes that a read has got can all be told of its lookups.

        range:      offset                               offset + len
                    ├────────┬──────────────┬──────────────┬──┤
        segments:   within ┄┄│ a block each │              │count
        lookups:    hit      miss           miss           hit
                             └ device read  └ device read -/

namespace BlockLog

/-- A lookup of a block: the segment that a read is after, whether the cache had its block, and the bytes
    of the segment, or why the block could not be fetched. -/
structure Lookup where
  segment : Machine.Segment
  hit : Bool
  copied : Except DeviceError Bytes

namespace Lookup

/-- The block that is looked up. -/
def block (l : Lookup) : Nat := l.segment.block

def succeeded (l : Lookup) : Bool := l.copied.isOk

/-- The block has been fetched from the device. -/
def fetched (l : Lookup) : Bool := !l.hit && l.succeeded

/-- The bytes that the read has got from it. -/
def bytes (l : Lookup) : Bytes :=
  match l.copied with
  | .ok bytes => bytes
  | .error _ => []

theorem succeeded_eq_false_iff {l : Lookup} :
    l.succeeded = false ↔ ∃ e, l.copied = .error e := by
  cases hc : l.copied <;> simp [succeeded, hc, Except.isOk, Except.toBool]

end Lookup

namespace DeviceCall

def isRead : DeviceCall → Bool
  | .read .. => true
  | _ => false

/-- The call has read a block. -/
def hasRead : DeviceCall → Bool
  | .read _ _ (.ok ()) => true
  | _ => false

end DeviceCall

/-- The segments of a range from `start` to before `stop`, one behind the other, each of one block. -/
inductive Tiles (blockSize start : Nat) : (stop : Nat) → List Machine.Segment → Prop
  | nil : Tiles blockSize start start []
  | snoc {mid segments} (before : Tiles blockSize start mid segments) (s : Machine.Segment)
    (next : s.block * blockSize + s.within = mid) (some : 0 < s.count)
    (inside : s.within + s.count ≤ blockSize) :
    Tiles blockSize start (mid + s.count) (segments ++ [s])

namespace Machine

variable {δ : Type} [Device δ]

/-- The bytes of a segment of a block that has been read into its slot. -/
def fetchedBytes (m : Machine δ) (s : Segment) : Bytes :=
  ((m.state.cache.slotOf s.block).buffer.overlay (Device.read m.device
    (s.block * m.state.ring.blockSize) m.state.ring.blockSize).bytes).slice s.within s.count

/-- The lookup that a move makes, if it makes one. -/
def lookup? (m : Machine δ) : Move → Option Lookup
  | .step (.client t) =>
    match m.clients[t]? with
    | some (.reading offset len got) =>
      if got.length < len then
        let s := segment m.state.ring.blockSize offset len got.length
        match m.state.cache.get? s.block with
        | some block => some { segment := s, hit := true, copied := .ok (block.slice s.within s.count) }
        | none =>
          let read := Device.read m.device (s.block * m.state.ring.blockSize) m.state.ring.blockSize
          some { segment := s, hit := false, copied := read.outcome.map fun _ => m.fetchedBytes s }
      else none
    | _ => none
  | _ => none

end Machine

namespace History

variable {δ : Type} [Device δ]

/-- The lookups so far, the oldest first. -/
def lookups : History δ → List Lookup
  | [] => []
  | now :: earlier => lookups earlier ++ (now.before.lookup? now.move).toList

/-- Nobody moves but the writer and client `t`, and no call is given. -/
def OnlyBy {δ : Type} (t : Nat) (past : History δ) : Prop :=
  ∀ now ∈ past, now.move = .step .writer ∨ now.move = .step (.client t)

instance {δ : Type} (t : Nat) (past : History δ) : Decidable (past.OnlyBy t) :=
  inferInstanceAs (Decidable (∀ now ∈ past, now.move = _ ∨ now.move = _))

theorem OnlyBy.cons {δ : Type} {t : Nat} {move : Move} {m m' : Machine δ} {past : History δ}
    (h : OnlyBy t (⟨m, move, m'⟩ :: past)) :
    OnlyBy t past ∧ (move = .step .writer ∨ move = .step (.client t)) :=
  (List.forall_mem_cons.1 h).symm

end History

namespace Machine

section

variable {δ : Type} [Device δ] {m m' m₁ : Machine δ} {t : Nat} {p p' : ClientPoint}
  {during : History δ}

theorem lookup?_eq_none (hp : m.clients[t]? = some p)
    (h : ∀ offset len got, p = .reading offset len got → len ≤ got.length) :
    m.lookup? (.step (.client t)) = none := by
  cases p with
  | reading offset len got =>
    simp only [lookup?, hp]
    rw [if_neg (Nat.not_lt.2 (h offset len got rfl))]
  | _ => simp only [lookup?, hp]

theorem lookup?_of_hit {offset len : Nat} {got block : Bytes}
    (hp : m.clients[t]? = some (.reading offset len got)) (more : got.length < len)
    (hit : m.state.cache.get? (segment m.state.ring.blockSize offset len got.length).block =
      some block) :
    m.lookup? (.step (.client t)) = some
      { segment := segment m.state.ring.blockSize offset len got.length
        hit := true
        copied := .ok (block.slice (segment m.state.ring.blockSize offset len got.length).within
          (segment m.state.ring.blockSize offset len got.length).count) } := by
  simp only [lookup?, hp, hit]
  exact if_pos more

theorem lookup?_of_miss {offset len : Nat} {got : Bytes} {s : Segment}
    (hp : m.clients[t]? = some (.reading offset len got)) (more : got.length < len)
    (hsegment : s = segment m.state.ring.blockSize offset len got.length)
    (miss : m.state.cache.get? s.block = none) :
    m.lookup? (.step (.client t)) = some
      { segment := s
        hit := false
        copied := (Device.read m.device (s.block * m.state.ring.blockSize)
          m.state.ring.blockSize).outcome.map fun _ => m.fetchedBytes s } := by
  subst hsegment
  simp only [lookup?, hp, miss]
  exact if_pos more

/-- A step of client `t` that looks a block up for a read. It goes on with the bytes of the segment
    behind those that it has got, or ends with the error of the device. -/
structure LooksUp (m : Machine δ) (p p' : ClientPoint) (m₁ : Machine δ) (offset len : Nat)
    (got : Bytes) (l : Lookup) : Prop where
  reading : p = .reading offset len got
  more : got.length < len
  segment : l.segment = segment m.state.ring.blockSize offset len got.length
  hit : l.hit = (m.state.cache.get? l.block).isSome
  next : p' = match l.copied with
    | .ok bytes => .reading offset len (got ++ bytes)
    | .error e => .idle (some (.error (.device e)))
  hits : m₁.state.totals.hits = m.state.totals.hits + l.hit.toNat
  misses : m₁.state.totals.misses = m.state.totals.misses + l.fetched.toNat
  cached : m.state.cache.Valid → ∀ b, (m₁.state.cache.get? b).isSome =
    if m.state.cache.placeOf b = m.state.cache.placeOf l.block then decide (b = l.block) && l.succeeded
    else (m.state.cache.get? b).isSome

/-- What a fetch leaves in the cache. -/
theorem isSome_get?_fetching (h : m.state.cache.Valid) (block b : Nat) :
    ((m.fetching block).state.cache.get? b).isSome =
      if m.state.cache.placeOf b = m.state.cache.placeOf block then
        decide (b = block) && (Device.read m.device (block * m.state.ring.blockSize)
          m.state.ring.blockSize).outcome.isOk
      else (m.state.cache.get? b).isSome :=
  Cache.isSome_get?_install block _ h _ b

/-- A step of a client looks no block up and leaves the cache and what has been counted of it alone, or
    it looks one up. -/
theorem ClientStep.lookup?_cases (hp : m.clients[t]? = some p) (hs : ClientStep m t p p' m₁) :
    (m.lookup? (.step (.client t)) = none ∧ m₁.state.cache = m.state.cache ∧
      m₁.state.totals.hits = m.state.totals.hits ∧ m₁.state.totals.misses = m.state.totals.misses) ∨
    ∃ offset len got l, m.lookup? (.step (.client t)) = some l ∧
      LooksUp m p p' m₁ offset len got l := by
  have hnone := lookup?_eq_none hp
  cases hs with
  | readHit more hit =>
    refine .inr ⟨_, _, _, _, lookup?_of_hit hp more hit, ⟨rfl, more, rfl, ?_, rfl, rfl, rfl, ?_⟩⟩
    · exact (congrArg Option.isSome hit).symm
    · intro hvalid b
      split
      · exact (Cache.isSome_get?_of_hit hit ‹_›).trans (Bool.and_true _).symm
      · rfl
  | readMiss more miss free hblock ok =>
    subst hblock
    refine .inr ⟨_, _, _, _, lookup?_of_miss hp more rfl miss, ⟨rfl, more, rfl, ?_, ?_, rfl, ?_, ?_⟩⟩
    · exact (congrArg Option.isSome miss).symm
    · simp only [segment, ok]
      rfl
    · simp only [Lookup.fetched, Lookup.succeeded, segment, ok]
      rfl
    · intro hvalid b
      refine (isSome_get?_fetching hvalid _ b).trans ?_
      simp only [Lookup.block, Lookup.succeeded, segment, ok]
      rfl
  | readFails more miss free hblock error =>
    subst hblock
    refine .inr ⟨_, _, _, _, lookup?_of_miss hp more rfl miss, ⟨rfl, more, rfl, ?_, ?_, rfl, ?_, ?_⟩⟩
    · exact (congrArg Option.isSome miss).symm
    · simp only [segment, error]
      rfl
    · simp only [Lookup.fetched, Lookup.succeeded, segment, error]
      rfl
    · intro hvalid b
      refine (isSome_get?_fetching hvalid _ b).trans ?_
      simp only [Lookup.block, Lookup.succeeded, segment, error]
      rfl
  | readDone complete =>
    refine .inl ⟨hnone fun _ _ _ heq => ?_, rfl, rfl, rfl⟩
    cases heq
    exact complete
  | feedNothing _ feeds | feedRefused _ feeds | feedBlocked _ feeds | feedPart _ feeds
  | feedAll _ feeds =>
    refine .inl ⟨hnone fun _ _ _ heq => ?_, rfl, rfl, rfl⟩
    cases feeds <;> cases heq
  | _ => exact .inl ⟨hnone fun _ _ _ heq => (by cases heq), rfl, rfl, rfl⟩

/-- A lookup is made for a read that is not complete, and goes to the cache or to the device. -/
theorem lookup?_eq_some {move : Move} {l : Lookup} (h : m.lookup? move = some l) :
    ∃ t offset len got, move = .step (.client t) ∧
      m.clients[t]? = some (.reading offset len got) ∧ got.length < len ∧
      l.segment = segment m.state.ring.blockSize offset len got.length ∧
      ((∃ block, m.state.cache.get? l.block = some block ∧ l.hit = true ∧
          l.copied = .ok (block.slice l.segment.within l.segment.count)) ∨
        (m.state.cache.get? l.block = none ∧ l.hit = false ∧
          l.copied = (Device.read m.device (l.block * m.state.ring.blockSize)
            m.state.ring.blockSize).outcome.map fun _ => m.fetchedBytes l.segment)) := by
  unfold lookup? at h
  split at h
  · rename_i t
    split at h
    · rename_i offset len got hp
      split at h
      · rename_i more
        dsimp only at h
        refine ⟨t, offset, len, got, rfl, hp, more, ?_⟩
        split at h
        · rename_i block hit
          cases h
          exact ⟨rfl, .inl ⟨block, hit, rfl, rfl⟩⟩
        · rename_i miss
          cases h
          exact ⟨rfl, .inr ⟨miss, rfl, rfl⟩⟩
      · cases h
    · cases h
  · cases h

/-! ### Lookups and device reads -/

/-- A lookup that misses asks the device for its block. -/
theorem deviceCall?_of_lookup? {move : Move} {l : Lookup} (h : m.lookup? move = some l) :
    m.deviceCall? move =
      if l.hit then none
      else some (.read (l.block * m.state.ring.blockSize) m.state.ring.blockSize
        (l.copied.map fun _ => ())) := by
  obtain ⟨t, offset, len, got, rfl, hp, more, hsegment, hcase⟩ := lookup?_eq_some h
  have hblock : l.block = (offset + got.length) / m.state.ring.blockSize := by
    rw [Lookup.block, hsegment]
    rfl
  rcases hcase with ⟨block, hit, hhit, -⟩ | ⟨miss, hmiss, hcopied⟩
  · rw [hblock] at hit
    rw [hhit]
    simp only [deviceCall?, hp]
    exact if_neg fun hmiss => by cases hmiss.2.symm.trans hit
  · rw [hblock] at miss hcopied
    rw [deviceCall?_of_reading hp more miss, hmiss, hcopied, hblock]
    cases (Device.read m.device _ m.state.ring.blockSize).outcome <;> rfl

/-- Nothing else reads from the device. -/
theorem isRead_of_lookup?_eq_none {move : Move} {call : DeviceCall} (h : m.lookup? move = none)
    (hc : m.deviceCall? move = some call) : call.isRead = false := by
  unfold deviceCall? at hc
  split at hc
  · split at hc <;> cases hc
    rfl
  · split at hc
    · rename_i hp
      dsimp only at hc
      split at hc
      · rename_i hmiss
        rw [lookup?_of_miss hp hmiss.1 rfl hmiss.2] at h
        cases h
      · cases hc
    · cases hc
      rfl
    · cases hc
  · cases hc

/-- The reads of a move and its misses. -/
theorem reads_of_move (m : Machine δ) (move : Move) :
    (m.deviceCall? move).toList.countP DeviceCall.isRead =
      (m.lookup? move).toList.countP (fun l => !l.hit) ∧
    (m.deviceCall? move).toList.countP DeviceCall.hasRead =
      (m.lookup? move).toList.countP Lookup.fetched := by
  cases hl : m.lookup? move with
  | none =>
    cases hc : m.deviceCall? move with
    | none => exact ⟨rfl, rfl⟩
    | some call =>
      have hread := isRead_of_lookup?_eq_none hl hc
      cases call with
      | read => cases hread
      | write | sync => exact ⟨rfl, rfl⟩
  | some l =>
    obtain ⟨s, hit, copied⟩ := l
    rw [deviceCall?_of_lookup? hl]
    cases hit with
    | true => exact ⟨rfl, rfl⟩
    | false => cases copied <;> exact ⟨rfl, rfl⟩

theorem counted_of_move {move : Move} (hm : m.move? move = some m') :
    m'.state.totals.hits =
      m.state.totals.hits + (m.lookup? move).toList.countP Lookup.hit ∧
    m'.state.totals.misses =
      m.state.totals.misses + (m.lookup? move).toList.countP Lookup.fetched := by
  match move, hm with
  | .submit t request, hm =>
    rw [(submit?_frame hm).1]
    exact ⟨rfl, rfl⟩
  | .step .writer, hm =>
    cases writerStep?_cases hm with
    | loop _ _ loop | complete _ _ loop => cases loop <;> exact ⟨rfl, rfl⟩
    | _ => exact ⟨rfl, rfl⟩
  | .step (.client t), hm =>
    obtain ⟨p, p', m₁, hp, hs, rfl⟩ := clientStep?_cases hm
    rcases hs.lookup?_cases hp with ⟨hnone, -, hhits, hmisses⟩ | ⟨_, _, _, l, hsome, hlooks⟩
    · rw [hnone]
      exact ⟨hhits, hmisses⟩
    · rw [hsome]
      refine ⟨hlooks.hits.trans ?_, hlooks.misses.trans ?_⟩
      · rw [Option.toList_some, List.countP_singleton]
        cases l.hit <;> rfl
      · rw [Option.toList_some, List.countP_singleton]
        cases l.fetched <;> rfl

/-- Of a run the totals count the lookups that were answered. -/
theorem counted_of_reaches [LawfulDevice δ] (h : Reaches m during m') :
    m'.state.totals.hits = m.state.totals.hits + during.lookups.countP Lookup.hit ∧
    m'.state.totals.misses = m.state.totals.misses + during.lookups.countP Lookup.fetched := by
  induction h with
  | start => exact ⟨rfl, rfl⟩
  | move move _ next ih =>
    obtain ⟨hhits, hmisses⟩ := counted_of_move next
    rw [History.lookups, List.countP_append, List.countP_append, hhits, hmisses, ih.1, ih.2]
    exact ⟨Nat.add_assoc .., Nat.add_assoc ..⟩
  | faults d _ _ ih => exact ih

end

end Machine

/-- The device reads of a run are its misses, and those that went through the blocks fetched. -/
theorem History.reads {δ : Type} [Device δ] (past : History δ) :
    past.deviceCalls.countP DeviceCall.isRead = past.lookups.countP (fun l => !l.hit) ∧
    past.deviceCalls.countP DeviceCall.hasRead = past.lookups.countP Lookup.fetched := by
  induction past with
  | nil => exact ⟨rfl, rfl⟩
  | cons now earlier ih =>
    obtain ⟨hread, hfetched⟩ := now.before.reads_of_move now.move
    simp only [deviceCalls, lookups, List.countP_append, hread, hfetched, ih, and_self]

/-! ### How far a read has come -/

/-- A read of `len` bytes at `offset` has looked up the first of the blocks of its range, and has got the
    bytes of their segments. -/
structure Covers (blockSize offset len : Nat) (got : Bytes) (lookups : List Lookup) : Prop where
  blocks : lookups.map Lookup.block ++ touched blockSize (offset + got.length) (len - got.length) =
    touched blockSize offset len
  tiles : Tiles blockSize offset (offset + got.length) (lookups.map Lookup.segment)
  bytes : (lookups.map Lookup.bytes).flatten = got
  sized : ∀ l ∈ lookups, l.bytes.length = l.segment.count
  succeeded : ∀ l ∈ lookups, l.succeeded = true

theorem Covers.nil (blockSize offset len : Nat) : Covers blockSize offset len [] [] :=
  ⟨rfl, .nil, rfl, nofun, nofun⟩

/-- One more block has been looked up. -/
theorem Covers.snoc {blockSize offset len : Nat} {got bytes : Bytes} {lookups : List Lookup} {l : Lookup}
    (h : Covers blockSize offset len got lookups) (hpos : 0 < blockSize) (hmore : got.length < len)
    (hsegment : l.segment = Machine.segment blockSize offset len got.length)
    (hok : l.copied = .ok bytes) (hlen : bytes.length = l.segment.count) :
    Covers blockSize offset len (got ++ bytes) (lookups ++ [l]) := by
  have hbytes : l.bytes = bytes := by rw [Lookup.bytes, hok]
  have hwithin := Nat.mod_lt (offset + got.length) hpos
  have hcount : l.segment.count =
      min (blockSize - (offset + got.length) % blockSize) (len - got.length) := by rw [hsegment]; rfl
  have hcons := touched_cons hpos (Nat.sub_pos_of_lt hmore) hcount
  have hnext : l.segment.block * blockSize + l.segment.within = offset + got.length := by
    rw [hsegment]
    exact Nat.div_add_mod' ..
  refine ⟨?_, ?_, ?_, ?_, ?_⟩
  · rw [← h.blocks, hcons, List.map_append, List.append_assoc, List.length_append, hlen,
      ← Nat.add_assoc, ← Nat.sub_sub, List.map_singleton, Lookup.block, hsegment]
    rfl
  · rw [List.length_append, hlen, ← Nat.add_assoc, List.map_append, List.map_singleton]
    refine h.tiles.snoc l.segment hnext ?_ ?_
    · omega
    · rw [hsegment] at hcount ⊢
      rw [hcount]
      dsimp only [Machine.segment]
      omega
  · rw [List.map_append, List.flatten_append, h.bytes, List.map_singleton, List.flatten_singleton,
      hbytes]
  · intro l' hl'
    rcases List.mem_append.1 hl' with hl' | hl'
    · exact h.sized l' hl'
    · rw [List.mem_singleton.1 hl', hbytes, hlen]
  · intro l' hl'
    rcases List.mem_append.1 hl' with hl' | hl'
    · exact h.succeeded l' hl'
    · rw [List.mem_singleton.1 hl', Lookup.succeeded, hok]
      rfl

/-- The next block that is looked up is the next one of the range, also if its lookup fails. -/
theorem Covers.blocks_snoc {blockSize offset len : Nat} {got : Bytes} {lookups : List Lookup} {l : Lookup}
    (h : Covers blockSize offset len got lookups) (hpos : 0 < blockSize) (hmore : got.length < len)
    (hsegment : l.segment = Machine.segment blockSize offset len got.length) :
    (lookups ++ [l]).map Lookup.block <+: touched blockSize offset len := by
  have hcons : touched blockSize (offset + got.length) (len - got.length) = _ :=
    touched_cons hpos (Nat.sub_pos_of_lt hmore) rfl
  have hblock : l.block = (offset + got.length) / blockSize := by
    rw [Lookup.block, hsegment]
    rfl
  rw [← h.blocks, hcons, List.map_append, List.map_singleton, hblock]
  exact ⟨_, List.append_assoc ..⟩

/-- Each lookup is a hit or a fetch. -/
theorem Covers.countP_eq {blockSize offset len : Nat} {got : Bytes} {lookups : List Lookup}
    (h : Covers blockSize offset len got lookups) :
    lookups.countP Lookup.hit + lookups.countP Lookup.fetched = lookups.length ∧
    lookups.countP Lookup.fetched = lookups.countP (fun l => !l.hit) := by
  have hfetched : lookups.countP Lookup.fetched = lookups.countP (fun l => !l.hit) :=
    List.countP_congr fun l hl => by rw [Lookup.fetched, h.succeeded l hl, Bool.and_true]
  refine ⟨?_, hfetched⟩
  rw [hfetched, List.length_eq_countP_add_countP Lookup.hit]
  simp

/-- The last lookup of a read has failed, and those before it went through. -/
inductive BreaksOff (blockSize offset len : Nat) (e : DeviceError) : List Lookup → Prop
  | intro {got before failed} (covers : Covers blockSize offset len got before)
    (more : got.length < len)
    (segment : failed.segment = Machine.segment blockSize offset len got.length)
    (miss : failed.hit = false) (error : failed.copied = .error e) :
    BreaksOff blockSize offset len e (before ++ [failed])

/-- What a client at this point has looked up if its call is the read of `len` bytes at `offset`. -/
def Reads (blockSize offset len : Nat) (lookups : List Lookup) : ClientPoint → Prop
  | .flushCalled purpose | .flushAdmitted purpose | .flushWaiting purpose _ _ =>
    purpose = .read offset len ∧ lookups = []
  | .readCalled start count => (start = offset ∧ count = len) ∧ lookups = []
  | .reading start count got =>
    (start = offset ∧ count = len) ∧ Covers blockSize offset len got lookups
  | .idle (some (.ok answer)) =>
    ∃ data, answer = .bytes data ∧ data.length = len ∧ Covers blockSize offset len data lookups
  | .idle (some (.error (.device e))) => BreaksOff blockSize offset len e lookups
  | .idle (some (.error _)) => lookups = []
  | _ => False

theorem Reads.woken {blockSize offset len : Nat} {lookups : List Lookup} {p q : ClientPoint}
    (h : Reads blockSize offset len lookups p) (hw : ClientPoint.Woken p q) :
    Reads blockSize offset len lookups q := by
  cases hw <;> exact h

theorem Reads.next {blockSize offset len : Nat} (flushed : Except LogError Nat)
    (hnot : ∀ e, flushed ≠ .error (.device e)) :
    Reads blockSize offset len [] (Purpose.next (.read offset len) flushed) := by
  cases flushed with
  | ok size =>
    unfold Purpose.next
    dsimp only
    split
    · rfl
    · exact ⟨⟨rfl, rfl⟩, rfl⟩
  | error e =>
    cases e with
    | device e => exact absurd rfl (hnot e)
    | _ => rfl

namespace Machine

variable {δ : Type} [Device δ] [LawfulDevice δ] {initial : Bytes} {m m' m₁ : Machine δ} {a : Account}
  {t offset len : Nat} {p p' : ClientPoint} {lookups : List Lookup} {during : History δ}

/-- The bytes of a lookup that succeeds are those of its segment. -/
theorem Consistent.length_of_lookup? (h : Consistent initial m a) {move : Move} {l : Lookup}
    (hl : m.lookup? move = some l) {bytes : Bytes} (hok : l.copied = .ok bytes) :
    bytes.length = l.segment.count := by
  obtain ⟨t, offset, len, got, -, -, more, hsegment, hcase⟩ := lookup?_eq_some hl
  have hcut : ∀ {block : Bytes}, block.length = m.state.ring.blockSize →
      (block.slice l.segment.within l.segment.count).length = l.segment.count := by
    intro block hlen
    obtain ⟨hlength, -⟩ := length_append_segment offset h.buffers.ring.blockSize_pos hlen
      (Nat.le_of_lt more)
    rw [List.length_append] at hlength
    rw [hsegment]
    exact Nat.add_left_cancel hlength
  rcases hcase with ⟨block, hit, -, hcopied⟩ | ⟨-, -, hcopied⟩
  · obtain rfl := Except.ok.inj (hcopied.symm.trans hok)
    exact hcut ((Cache.length_get? h.caches.valid hit).trans h.caches.blockSize_eq)
  · cases ho : (Device.read m.device (l.block * m.state.ring.blockSize)
      m.state.ring.blockSize).outcome with
    | ok _ =>
      obtain ⟨hfilled, hlen⟩ := h.filled_eq l.block ho
      rw [← hfilled] at hlen
      rw [hcopied, ho] at hok
      cases hok
      exact hcut hlen
    | error e =>
      rw [hcopied, ho] at hok
      cases hok

omit [LawfulDevice δ] in
/-- Only a device read fails. -/
theorem hit_eq_false_of_error {move : Move} {l : Lookup} (hl : m.lookup? move = some l)
    {e : DeviceError} (herror : l.copied = .error e) : l.hit = false := by
  obtain ⟨t, offset, len, got, -, -, -, -, ⟨block, -, -, hcopied⟩ | ⟨-, hmiss, -⟩⟩ := lookup?_eq_some hl
  · rw [hcopied] at herror
    cases herror
  · exact hmiss

theorem ClientStep.reads (h : Inv initial m a) (hp : m.clients[t]? = some p)
    (hs : ClientStep m t p p' m₁) (hr : Reads m.state.ring.blockSize offset len lookups p) :
    Reads m.state.ring.blockSize offset len
      (lookups ++ (m.lookup? (.step (.client t))).toList) p' := by
  rcases hs.lookup?_cases hp with ⟨hnone, -⟩ | ⟨start, count, got, l, hsome, hlooks⟩
  · rw [hnone, Option.toList_none, List.append_nil]
    cases hs with
    | admitFlush | flushPads | flushWaits => exact hr
    | refuseFlush | flushNothing | flushFails | flushDone =>
      obtain ⟨rfl, rfl⟩ := hr
      exact Reads.next _ nofun
    | refuseRead => exact hr.2
    | beginRead =>
      obtain ⟨hrange, rfl⟩ := hr
      exact ⟨hrange, .nil ..⟩
    | readHit more hit =>
      rw [lookup?_of_hit hp more hit] at hnone
      cases hnone
    | readMiss more miss | readFails more miss =>
      rw [lookup?_of_miss hp more rfl miss] at hnone
      cases hnone
    | @readDone start count got complete =>
      obtain ⟨⟨rfl, rfl⟩, hcovers⟩ := hr
      obtain ⟨-, hle, -⟩ := h.serves t _ hp
      exact ⟨got, rfl, Nat.le_antisymm hle complete, hcovers⟩
    | feedNothing _ feeds | feedRefused _ feeds | feedBlocked _ feeds | feedPart _ feeds
    | feedAll _ feeds => cases feeds <;> cases hr
    | _ => cases hr
  · rw [hsome, Option.toList_some, hlooks.next]
    obtain rfl := hlooks.reading
    obtain ⟨⟨rfl, rfl⟩, hcovers⟩ := hr
    cases hok : l.copied with
    | ok bytes =>
      exact ⟨⟨rfl, rfl⟩, hcovers.snoc h.consistent.buffers.ring.blockSize_pos hlooks.more
        hlooks.segment hok (h.consistent.length_of_lookup? hsome hok)⟩
    | error e =>
      exact .intro hcovers hlooks.more hlooks.segment (hit_eq_false_of_error hsome hok) hok

variable {device : δ} {settings : Settings} {clients : Nat} {m₀ : Machine δ} {past : History δ}

/-- While a read runs alone it is known what has been looked up: nothing before its flush is over, then
    one block after the other. -/
theorem reads_of_reaches (h₀ : open? device settings clients = .ok m₀) (h : Reaches m₀ past m)
    (hgiven : m.submit? t (.read offset len) = some m₁) (hduring : Reaches m₁ during m')
    (honly : during.OnlyBy t) : ∃ p, m'.clients[t]? = some p ∧
      Reads (Device.blockSize device) offset len during.lookups p := by
  have hbegun := h.submit hgiven
  induction hduring with
  | start => exact ⟨_, (submit?_placed hgiven).self, rfl, rfl⟩
  | @move during m m' move reached next ih =>
    obtain ⟨hrest, hmove⟩ := honly.cons
    obtain ⟨p, hp, hreads⟩ := ih hrest
    obtain ⟨⟨flushed, hinv⟩, -, hblockSize⟩ := inv_of_reaches h₀ (hbegun.trans reached)
    rw [History.lookups]
    rcases hmove with rfl | rfl
    · obtain ⟨q, hq, hwoken⟩ := (writerStep?_cases next).exists_woken hp
      exact ⟨q, hq, (List.append_nil during.lookups).symm ▸ hreads.woken hwoken⟩
    · obtain ⟨q, p', m₂, hq, hs, rfl⟩ := clientStep?_cases next
      rw [hp] at hq
      cases hq
      rw [← hblockSize] at hreads ⊢
      exact ⟨p', (hs.placed hp).self, hs.reads hinv hp hreads⟩
  | faults d _ _ ih => exact ih honly

end Machine

end BlockLog
