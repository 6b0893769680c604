import BlockLog.Command
import BlockLog.Proofs.Command.Session

/-! The round trip, from the file that goes in to the file that is left. Its appends come to one append of
    the whole file, however it is cut up; the read behind them is the first look at any block, so it
    fetches each of them once, however few slots there are; and before that it writes the last block
    if the file does not end with one, as the close does again.

        chunks:   ├───┼───┼───┼───┼─┤
        blocks:   ├─────┼─────┼─────┤┈┈┤     written once each, and fetched once each
        device:   ├──── data ───────┤00├── as before ── -/

namespace BlockLog

/-- How many blocks `n` bytes take up. -/
def blocksFor (blockSize n : Nat) : Nat := (n + blockSize - 1) / blockSize

theorem div_add_eq_blocksFor {blockSize : Nat} (hpos : 0 < blockSize) (n : Nat) :
    n / blockSize + (if n % blockSize = 0 then 0 else 1) = blocksFor blockSize n := by
  have hsplit := Nat.div_add_mod n blockSize
  have hlt := Nat.mod_lt n hpos
  rw [blocksFor]
  split
  · rw [Nat.add_zero, show n + blockSize - 1 = blockSize - 1 + blockSize * (n / blockSize) by omega,
      Nat.add_mul_div_left _ _ hpos,
      Nat.div_eq_of_lt (show blockSize - 1 < blockSize by omega), Nat.zero_add]
  · rw [show n + blockSize - 1 = n % blockSize - 1 + blockSize * (n / blockSize + 1) by
      rw [Nat.mul_succ]; omega, Nat.add_mul_div_left _ _ hpos,
      Nat.div_eq_of_lt (show n % blockSize - 1 < blockSize by omega), Nat.zero_add]

theorem length_touched {blockSize : Nat} (hpos : 0 < blockSize) (n : Nat) :
    (touched blockSize 0 n).length = blocksFor blockSize n := by
  rw [touched, blocksFor]
  split
  · rename_i hz
    rw [hz, Nat.zero_add, Nat.div_eq_of_lt (by omega)]
    rfl
  · rw [List.length_range', Nat.zero_div, Nat.zero_add, Nat.sub_zero,
      show n + blockSize - 1 = n - 1 + blockSize by omega, Nat.add_div_right _ hpos]

namespace Command

open Machine LawfulDevice

/-- The calls of a round trip before its log is closed. -/
def roundtripRequests (data : Bytes) (chunk : Nat) : List Request :=
  (data.chunks chunk).map Request.append ++ [.read 0 data.length]

/-- Where a file has been appended to a prompt log that has done nothing yet, a read of it all fetches every
    block once. -/
theorem call_read_append {blockSize : Nat} (hpos : 0 < blockSize) (slots : Nat) (initial data : Bytes)
    {σ : Prompt}
    (hσ : σ = (Prompt.append { blockSize, slots, initial } data).call (.read 0 data.length)) :
    σ.contents = Bytes.image blockSize data initial ∧ σ.log = data ∧
      σ.written = blocksFor blockSize data.length ∧ σ.hits = 0 ∧
      σ.misses = blocksFor blockSize data.length := by
  generalize hρ : Prompt.append { blockSize, slots, initial } data = ρ at hσ
  have hlog : ρ.log = data := hρ ▸ rfl
  have hblockSize : ρ.blockSize = blockSize := hρ ▸ rfl
  have hwritten : ρ.written = data.length / blockSize := by
    rw [← hρ]
    show 0 + (data.length / blockSize - 0 / blockSize) = _
    rw [Nat.zero_div, Nat.sub_zero, Nat.zero_add]
  have hnone : ∀ b, ρ.settle.cached b = none := by
    intro b
    rw [← hρ]
    simp only [Prompt.settle, Prompt.append, Prompt.writeOut, Prompt.writeBlocks, ite_self]
  have hzero : ρ.settle.hits = 0 ∧ ρ.settle.misses = 0 := by
    rw [← hρ]
    exact ⟨rfl, rfl⟩
  have hlooks := ρ.settle.looks_proceed (.read 0 data.length)
  have hread : ρ.settle.proceed (.read 0 data.length) =
      (touched blockSize 0 data.length).foldl Prompt.lookup ρ.settle := by
    rw [Prompt.proceed, if_neg (by rw [Prompt.log_settle, hlog]; omega), Prompt.lookups,
      Prompt.blockSize_settle, hblockSize]
  have hnodup : (touched blockSize 0 data.length).Nodup := by
    rw [touched]
    split
    · exact List.nodup_nil
    · exact List.nodup_range'
  obtain ⟨hhits, hmisses⟩ := Prompt.foldl_lookup_of_none _ ρ.settle hnodup fun b _ => hnone b
  have hproceed : σ = ρ.settle.proceed (.read 0 data.length) := hσ
  have hwrote : σ.written = ρ.written + _ :=
    hproceed ▸ hlooks.written.trans (ρ.written_settle (hblockSize ▸ hpos))
  refine ⟨?_, ?_, ?_, ?_, ?_⟩
  · rw [Prompt.contents, hproceed, hlooks.blockSize, hlooks.log, hlooks.initial, Prompt.log_settle,
      hlog, Prompt.blockSize_settle, hblockSize, ← hρ]
    rfl
  · rw [hproceed, hlooks.log, Prompt.log_settle, hlog]
  · rw [hwrote, hwritten, hlog, hblockSize, div_add_eq_blocksFor hpos]
  · rw [hproceed, hread, hhits, hzero.1]
  · rw [hproceed, hread, hmisses, hzero.2, length_touched hpos, Nat.zero_add]

/-! ### Any run -/

/-- The totals of a round trip of `n` bytes whose last flush found no block to drain. -/
def roundtripTotals (blockSize n : Nat) : Totals where
  appendedBytes := n
  writtenBlocks := blocksFor blockSize n
  flushes := if n % blockSize = 0 then 0 else 1
  hits := 0
  misses := blocksFor blockSize n

variable {files tree : FileTree} {path input : String} {settings : Settings} {location : Location}
  {initial data : Bytes} {chunk : Nat} {log : Log Device.File} {m₀ m : Machine Device.File} {past : History Device.File}

theorem payloads_roundtripRequests (data : Bytes) (chunk : Nat) :
    ((roundtripRequests data chunk).map Request.payload).flatten = data := by
  rw [roundtripRequests, List.map_append, Request.payloads_of_appends, List.flatten_append,
    Bytes.flatten_chunks]
  exact List.append_nil data

/-- A read of everything. -/
theorem answer_read (data : Bytes) :
    (Request.read 0 data.length).answer data = .ok (.bytes data) := by
  rw [Request.answer, if_neg (by omega), Bytes.slice, List.drop_zero, List.take_length]

/-- What a run of the calls of a round trip of `data` comes to, whenever the writer takes its steps. -/
structure RoundTrips (initial data : Bytes) (blockSize chunk : Nat) (past : History Device.File)
    (m : Machine Device.File) : Prop where
  /-- It comes to an end: there are only so many steps, and where none can be taken nobody is under way. -/
  ends : (∀ actor m', m.step? actor = some m' → m'.potential < m.potential) ∧
    ((∀ actor, m.step? actor = none) → ∀ p ∈ m.clients, p.isIdle = true)
  /-- Where the read is over it has brought the whole file back. -/
  back : past.requests = roundtripRequests data chunk → (∀ p ∈ m.clients, p.isIdle = true) →
    m.reply? 0 = some (.ok (.bytes data))
  /-- The totals are told then from the length of the file alone, all but the flushes. -/
  counted : past.requests = roundtripRequests data chunk → (∀ p ∈ m.clients, p.isIdle = true) →
    m.state.totals = { roundtripTotals blockSize data.length with flushes := m.state.totals.flushes }
  /-- So are the flushes if the writer had drained all whole blocks when the read was given. -/
  drained : past.requests = roundtripRequests data chunk → (∀ p ∈ m.clients, p.isIdle = true) →
    past.Drained → m.state.totals = roundtripTotals blockSize data.length
  /-- Where the close is over the device has the file, zeros up to the end of its last block, and what was
      behind that before. -/
  closed : past.requests = roundtripRequests data chunk ++ [.close] →
    (∀ p ∈ m.clients, p.isIdle = true) → m.reply? 0 = some (.ok .done) ∧
      m.device.contents.toList = Bytes.image blockSize data initial

theorem roundTrips_of_reaches
    (h₀ : Machine.open? (found path location settings initial) settings 1 = .ok m₀)
    (hs : settings.Usable) (hroom : data.length + settings.fileBlockSize < Device.File.offsetLimit)
    (h : Reaches m₀ past m) : RoundTrips initial data settings.fileBlockSize chunk past m := by
  obtain ⟨⟨flushed, hinv⟩, -⟩ := inv_of_reaches h₀ h
  have hpos := hs.blockSize_pos
  have hlog : (Prompt.append { blockSize := settings.fileBlockSize, slots := settings.cacheBlocks, initial }
      data).log = data := rfl
  have hread : past.requests = roundtripRequests data chunk → (∀ p ∈ m.clients, p.isIdle = true) → _ :=
    fun hrequests hidle => served_open h₀ h hidle
      (by rw [History.given, hrequests, payloads_roundtripRequests]; exact hroom) hrequests rfl rfl
  have hcounted : past.requests = roundtripRequests data chunk → (∀ p ∈ m.clients, p.isIdle = true) →
      m.state.totals = { roundtripTotals settings.fileBlockSize data.length with
        flushes := m.state.totals.flushes } := by
    intro hrequests hidle
    obtain ⟨-, htotals, -⟩ := hread hrequests hidle
    rw [Prompt.foldl_append, Bytes.flatten_chunks] at htotals
    obtain ⟨-, hlog, hwritten, hhits, hmisses⟩ :=
      call_read_append hpos settings.cacheBlocks initial data rfl
    rw [hlog, hwritten, hhits, hmisses] at htotals
    exact htotals
  exact
    { ends := ⟨fun actor m' => hinv.potential_lt, (settles_of_reaches h₀ h).idle⟩
      back := fun hrequests hidle => by
        rw [(hread hrequests hidle).2.2.2, Prompt.foldl_append, Bytes.flatten_chunks, hlog,
          answer_read]
      counted := hcounted
      drained := fun hrequests hidle hdrained => by
        have hu := (hread hrequests hidle).1
        have hflushes : m.state.totals.flushes = past.unevenFlushes settings.fileBlockSize :=
          flushes_of_drained h₀ h hu hidle hdrained
        rw [unevenFlushes_of_last h₀ _ h hu hrequests, Bytes.flatten_chunks] at hflushes
        rw [hcounted hrequests hidle, hflushes]
        refine congrArg (Totals.mk _ _ · _ _) ?_
        by_cases hwhole : data.length % settings.fileBlockSize = 0
        · rw [if_pos hwhole, if_neg fun hpart => hpart.2 hwhole]
        · rw [if_neg hwhole, if_pos ⟨rfl, hwhole⟩]
      closed := fun hrequests hidle => by
        have hgiven : past.given = data.length := by
          rw [History.given, hrequests, List.map_append, List.flatten_append,
            payloads_roundtripRequests]
          exact congrArg List.length (List.append_nil data)
        obtain ⟨-, -, hstored, hreply⟩ :=
          served_open h₀ h hidle (by rw [hgiven]; exact hroom) hrequests rfl rfl
        refine ⟨hreply, hstored.trans (((Prompt.stores_start ..).close _ hpos).trans ?_)⟩
        rw [roundtripRequests, List.foldl_append, Prompt.foldl_append, Bytes.flatten_chunks]
        exact (call_read_append hpos _ initial data rfl).1 }

/-! ### The command -/

/-- Appends that fit go through. -/
theorem appendAll_eq {device : Device.File} {clients limit : Nat} {m₁ : Machine Device.File}
    {before : History Device.File} (H : Handed device settings clients limit before m₀ m₁)
    (pieces : List Bytes) : ∀ {log : Log Device.File} {during : History Device.File},
      Rests m₁ during log → .close ∉ during.requests →
      before.given + during.given + pieces.flatten.length ≤ limit →
      (appendAll log pieces).2 = .ok () ∧ ∃ during' : History Device.File,
        Rests m₁ during' (appendAll log pieces).1 ∧
        during'.requests = during.requests ++ pieces.map Request.append := by
  induction pieces with
  | nil => exact fun A _ _ => ⟨rfl, _, A, (List.append_nil _).symm⟩
  | cons piece pieces ih =>
    intro log during A hopen hle
    rw [List.flatten_cons, List.length_append] at hle
    obtain ⟨during', A', hrequests, hreply⟩ := H.await A hopen (.append piece)
      (by show _ + piece.length ≤ _; omega)
    have hgiven : during'.given = during.given + piece.length := History.given_of_requests hrequests
    have hopen' : .close ∉ during'.requests := by
      rw [hrequests]
      simp [hopen]
    obtain ⟨hok, during'', A'', hrest⟩ := ih A' hopen' (by omega)
    have hstep : appendAll log (piece :: pieces) =
        appendAll (log.await (.append piece)).1 pieces := by
      rw [appendAll, Log.append]
      dsimp only
      rw [hreply]
      rfl
    rw [hstep]
    exact ⟨hok, during'', A'', by rw [hrest, hrequests, List.append_assoc]; rfl⟩

/-- The work of a round trip gives its lines. -/
theorem roundtripWork_eq (chunk : Nat)
    (h₀ : Machine.open? (found path location settings initial) settings 1 = .ok m₀)
    (hs : settings.Usable) (hroom : data.length + settings.fileBlockSize < Device.File.offsetLimit) :
    ∃ (log : Log Device.File) (past : History Device.File), Rests m₀ past log ∧
      past.requests = roundtripRequests data chunk ∧
      roundtripWork data chunk { machine := m₀.settle } =
        (log, .ok (roundtripLine data.length (Checksum.ofBytes data) ::
          (roundtripTotals settings.fileBlockSize data.length).lines)) := by
  have H := handed_open h₀ Nat.one_pos hroom
  obtain ⟨steps, hsteps, A⟩ := H.rests_settle (Nat.zero_le _)
  have hnone : steps.requests = [] := History.requests_of_onlySteps hsteps
  have hgiven : steps.given = 0 := by rw [History.given, hnone]; rfl
  obtain ⟨hok, past, A', hrequests⟩ := appendAll_eq H (data.chunks chunk) A (by rw [hnone]; simp)
    (by rw [hgiven, Bytes.flatten_chunks]; exact Nat.le_of_eq (Nat.zero_add _))
  rw [hnone, List.nil_append] at hrequests
  have hgiven' : past.given = data.length := by
    rw [History.given, hrequests, Request.payloads_of_appends, Bytes.flatten_chunks]
  obtain ⟨past', A'', hrequests', hreply⟩ := H.await A' (by rw [hrequests]; simp)
    (.read 0 data.length) (by rw [hgiven']; exact Nat.le_of_eq (Nat.zero_add _))
  rw [due_open h₀, hrequests, Prompt.foldl_append, Bytes.flatten_chunks] at hreply
  have hreply : _ = Except.ok (Answer.bytes data) := hreply.trans (answer_read data)
  rw [hrequests] at hrequests'
  refine ⟨_, past', A'', hrequests', ?_⟩
  have htotals := (roundTrips_of_reaches h₀ hs hroom A''.reached).drained hrequests' A''.quiet.idle
    A''.drained
  have happend : appendAll { machine := m₀.settle } (data.chunks chunk) =
      ((appendAll { machine := m₀.settle } (data.chunks chunk)).1, .ok ()) := Prod.ext rfl hok
  rw [roundtripWork, happend]
  dsimp only
  rw [Log.read]
  dsimp only
  rw [hreply]
  show (if Checksum.ofBytes data = Checksum.ofBytes data then _ else _) = _
  rw [if_pos rfl, Log.totals, htotals]
  rfl

/-- A round trip of a file comes back with it wherever the log opens, over any regular file and whatever
    pieces it is cut into.

    The command is a success. It reports the length of the input and its checksum, and totals that are
    told from the length and the block size alone: not from the pieces, and not from how much write
    buffer and cache there is. Afterwards the device file has the input, zeros up to the end of its last
    block, and what was behind that before. It may be the input file itself.

    The command runs by the schedule of the log. But the calls that it makes come to the same whenever
    the writer takes its steps, the count of the flushes apart, which hangs on what the last flush
    finds. -/
theorem roundtrip_comes_back (chunk : Nat) (hinput : files.readAll input = .ok data)
    (hfile : files.openFile path settings.create = .ok (tree, location, .file initial))
    (hopen : (Log.openAt files path settings).2 = .ok log)
    (hroom : data.length + settings.fileBlockSize < Device.File.offsetLimit) :
    perform files { device := path, settings, task := .roundtrip input chunk } =
      { files := tree.put location (.file (Bytes.image settings.fileBlockSize data initial))
        lines := roundtripLine data.length (Checksum.ofBytes data) ::
          (roundtripTotals settings.fileBlockSize data.length).lines
        ending := .success } ∧
    ∀ m₀ m past, Machine.open? (found path location settings initial) settings 1 = .ok m₀ →
      Reaches m₀ past m → RoundTrips initial data settings.fileBlockSize chunk past m := by
  have hs := (openAt_isOk_iff hfile).1 ⟨log, hopen⟩
  refine ⟨?_, fun m₀ m past h₀ h => roundTrips_of_reaches h₀ hs hroom h⟩
  obtain ⟨m₀, h₀⟩ := hs.opens (found path location settings initial) rfl 1
  obtain ⟨log, past, A, hrequests, hwork⟩ := roundtripWork_eq chunk h₀ hs hroom
  have hgiven : past.given = data.length := by
    rw [History.given, hrequests, payloads_roundtripRequests]
  obtain ⟨hclosed, hsaved⟩ := close_eq (handed_open h₀ Nat.one_pos hroom) A
    (by rw [hrequests]; simp [roundtripRequests]) (by rw [hgiven]; exact Nat.le_of_eq (Nat.zero_add _))
    (due_start h₀ initial) (Prompt.stores_start ..) hs.blockSize_pos
  have himage := (call_read_append hs.blockSize_pos settings.cacheBlocks initial data rfl).1
  rw [hrequests, roundtripRequests, List.foldl_append, Prompt.foldl_append, Bytes.flatten_chunks] at hsaved
  show roundtrip files path settings input chunk = _
  rw [roundtrip, hinput]
  refine withLog_eq hfile hs h₀ hwork hclosed fun files => ?_
  rw [hsaved, ← himage]
  rfl

/-- Three bytes over themselves, with blocks of two and room for one of them. -/
theorem roundtrip_over_itself :
    perform { working := [], entries := [(["d"], .file [1, 2, 3])] }
      { device := "d"
        settings := { bufferBlocks := 1, cacheBlocks := 1, blockSize := some 2 }
        task := .roundtrip "d" 0 } =
      { files := { working := [], entries := [(["d"], .file [1, 2, 3, 0])] }
        lines := ["round-trip ok: 3 bytes, crc32 55bc801d", "  bytes appended: 3",
          "  blocks written: 2", "  flushes:        1", "  cache hits:     0", "  cache misses:   2"]
        ending := .success } := by
  have hinput : FileTree.readAll { working := [], entries := [(["d"], .file [1, 2, 3])] } "d" =
      .ok [1, 2, 3] := rfl
  have hfile : FileTree.openFile { working := [], entries := [(["d"], .file [1, 2, 3])] } "d" false =
      .ok ({ working := [], entries := [(["d"], .file [1, 2, 3])] }, ["d"], .file [1, 2, 3]) := rfl
  have hs : Settings.Usable { bufferBlocks := 1, cacheBlocks := 1, blockSize := some 2 } :=
    ⟨by decide, by decide, by decide, by decide, by decide, by decide⟩
  obtain ⟨log, hopen⟩ := (openAt_isOk_iff hfile).2 hs
  have hline : roundtripLine 3 (Checksum.ofBytes [1, 2, 3]) =
      "round-trip ok: 3 bytes, crc32 55bc801d" := by decide +kernel
  have hput : FileTree.put { working := [], entries := [(["d"], .file [1, 2, 3])] } ["d"]
      (.file (Bytes.image 2 [1, 2, 3] [1, 2, 3])) =
        { working := [], entries := [(["d"], .file [1, 2, 3, 0])] } := by decide +kernel
  refine (roundtrip_comes_back 0 hinput hfile hopen (by decide)).1.trans ?_
  rw [show List.length _ = 3 from rfl, hline]
  exact congrArg (fun files => Report.mk files _ _) hput

/-- Sizes that no memory has room for are refused before the log is opened. -/
theorem roundtrip_out_of_memory :
    perform { working := [], entries := [(["d"], .file [1, 2, 3])] }
      { device := "d"
        settings := { bufferBlocks := 1, cacheBlocks := 18446744073709551615, blockSize := some 8 }
        task := .roundtrip "d" 0 } =
      { files := { working := [], entries := [(["d"], .file [1, 2, 3])] }
        lines := []
        ending := .failure (.log (.outOfMemory .readCache)) } := by
  rfl

end Command

end BlockLog
