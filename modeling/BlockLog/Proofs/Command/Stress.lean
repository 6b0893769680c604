import BlockLog.Command
import BlockLog.Proofs.Command.Session
import BlockLog.Proofs.Workload.Run

/-! The stress test, from the appenders' first turns to the file that is left. In whatever order the
    records have come, they are of one size, so the log has the same length, and the reads behind it ask
    for the same ranges; each of them flushes the rest of the log once more. How often they find a block
    in the cache hangs on these ranges alone.

        log:      ├ a₀ ┼ b₀ ┼ b₁ ┼ a₁ ┤          or any other order
        reads:    ├────┼────┼────┼────┤          the same, one flush each
        device:   ├──── log ──────────┤00├── as before ── -/

namespace BlockLog

/-- A read of what is there. -/
theorem answer_read_of_le {log : Bytes} {offset len : Nat} (h : offset + len ≤ log.length) :
    (Request.read offset len).answer log = .ok (.bytes (log.slice offset len)) := by
  rw [Request.answer, if_neg (Nat.not_lt.2 h)]

namespace Command

open Machine LawfulDevice

/-! ### What is read back -/

/-- The calls that read records back. -/
def readsOf (records : List Written) : List Request :=
  records.map fun w => .read w.offset w.payload.length

theorem payloads_readsOf (records : List Written) :
    ((readsOf records).map Request.payload).flatten = [] := by
  induction records with
  | nil => rfl
  | cons w records ih => exact ih

theorem close_notMem_readsOf (records : List Written) : .close ∉ readsOf records := by
  rw [readsOf, List.mem_map]
  rintro ⟨w, -, hread⟩
  cases hread

/-- Where records of one size are, one behind the other. -/
def stressRanges (count size : Nat) : List (Nat × Nat) :=
  (List.range count).map fun k => (k * size, size)

theorem readsOf_laidOut {payloads : List Bytes} {size : Nat} (hsize : ∀ p ∈ payloads, p.length = size) :
    readsOf (laidOut 0 payloads) =
      (stressRanges payloads.length size).map fun r => Request.read r.1 r.2 := by
  have hbounds := map_bounds_laidOut payloads hsize 0
  simp only [Nat.zero_add] at hbounds
  rw [stressRanges, ← hbounds, List.map_map]
  rfl

/-- A prompt log of the same lengths as that of a stress test, with nothing but zeros in it. -/
def stressPrompt (blockSize slots count size : Nat) : Prompt :=
  ((stressRanges count size).map fun r => Request.read r.1 r.2).foldl Prompt.call
    (Prompt.append { blockSize, slots, initial := [] } (Bytes.zeros (count * size)))

/-- The totals of a stress test with `count` records of `size` bytes in all. -/
def stressTotals (blockSize slots count size flushes : Nat) : Totals where
  appendedBytes := count * size
  writtenBlocks := count * size / blockSize + if count * size % blockSize = 0 then 0 else count
  flushes := flushes
  hits := (stressPrompt blockSize slots count size).hits
  misses := (stressPrompt blockSize slots count size).misses

/-- Reading records of one size back from a log that has them does the same whatever is in them. -/
theorem call_readsOf {blockSize : Nat} (hpos : 0 < blockSize) (slots : Nat) (initial : Bytes)
    {payloads : List Bytes} {size : Nat} (hsize : ∀ p ∈ payloads, p.length = size) {ρ σ : Prompt}
    (hρ : ρ = Prompt.append { blockSize, slots, initial } payloads.flatten)
    (hσ : σ = (readsOf (laidOut 0 payloads)).foldl Prompt.call ρ) :
    σ.contents = Bytes.image blockSize payloads.flatten initial ∧
      ∀ flushes, Totals.mk σ.log.length σ.written flushes σ.hits σ.misses =
        stressTotals blockSize slots payloads.length size flushes := by
  have hlength := length_flatten_of_size hsize
  have hlog : ρ.log = payloads.flatten := hρ ▸ rfl
  have hblockSize : ρ.blockSize = blockSize := hρ ▸ rfl
  have hinitial : ρ.initial = initial := hρ ▸ rfl
  have hwritten : ρ.written = payloads.length * size / blockSize := by
    rw [hρ, ← hlength]
    show 0 + (payloads.flatten.length / blockSize - 0 / blockSize) = _
    rw [Nat.zero_div, Nat.sub_zero, Nat.zero_add]
  have halike : Prompt.Alike ρ (Prompt.append { blockSize, slots, initial := [] }
      (Bytes.zeros (payloads.length * size))) := by
    have hstart : Prompt.Alike { blockSize, slots, initial } { blockSize, slots, initial := [] } :=
      ⟨rfl, rfl, rfl, fun _ => rfl, rfl, rfl, rfl⟩
    rw [hρ]
    exact hstart.append (hlength.trans (Bytes.length_zeros _).symm)
  rw [readsOf_laidOut hsize] at hσ
  obtain ⟨hlog', hwritten'⟩ :=
    Prompt.foldl_reads (stressRanges payloads.length size) ρ (hblockSize ▸ hpos)
  obtain ⟨hblockSize', hinitial', -⟩ := Prompt.foldl_call_frame
    ((stressRanges payloads.length size).map fun r => Request.read r.1 r.2) ρ
  have hsame := halike.reads (stressRanges payloads.length size)
  have hcount : (stressRanges payloads.length size).length = payloads.length := by
    rw [stressRanges, List.length_map, List.length_range]
  rw [← hσ] at hlog' hwritten' hblockSize' hinitial' hsame
  refine ⟨?_, fun flushes => ?_⟩
  · rw [Prompt.contents, hblockSize', hlog', hinitial', hblockSize, hlog, hinitial]
  · rw [hlog', hwritten', hlog, hwritten, hblockSize, hsame.hits, hsame.misses, hlength, hcount,
      stressTotals, stressPrompt]
    refine congrArg (Totals.mk _ · _ _ _) (congrArg _ ?_)
    split
    · rw [Nat.mul_zero]
    · rw [Nat.mul_one]

/-! ### What there must be room for -/

/-- How many records the list of all has room for once those of `threads` appenders are in it, `each` of
    every one. -/
def joinedCapacity (each : Nat) : Nat → Nat
  | 0 => 0
  | threads + 1 => grown (joinedCapacity each threads) ((threads + 1) * each)

/-- A stress test never asks for more than one allocation can have. -/
structure StressFits (threads each size : Nat) : Prop where
  toAppend : roomToAppend threads each size = true
  results : threads * resultRoom ≤ allocationLimit
  joined : joinedCapacity each threads * recordRoom ≤ allocationLimit

theorem le_grown (capacity needed : Nat) : capacity ≤ grown capacity needed := by
  rw [grown]
  split
  · exact Nat.le_refl _
  · omega

theorem joinedCapacity_le_add (each threads more : Nat) :
    joinedCapacity each threads ≤ joinedCapacity each (threads + more) := by
  induction more with
  | zero => exact Nat.le_refl _
  | succ more ih => exact Nat.le_trans ih (le_grown ..)

/-- Lists of one length are joined, if there is room for all of them in the end. -/
theorem join_eq {each : Nat} (lists : List (List Written)) (hlength : ∀ l ∈ lists, l.length = each) :
    ∀ (n : Nat) (joined : List Written), joined.length = n * each →
      joinedCapacity each (n + lists.length) * recordRoom ≤ allocationLimit →
      join (joinedCapacity each n) joined (lists.map Except.ok) = .ok (joined ++ lists.flatten) := by
  induction lists with
  | nil => exact fun _ joined _ _ => congrArg Except.ok (List.append_nil joined).symm
  | cons l lists ih =>
    intro n joined hjoined hroom
    have hl := hlength l List.mem_cons_self
    have hneeded : joined.length + l.length = (n + 1) * each := by rw [hjoined, hl, Nat.succ_mul]
    rw [List.length_cons, Nat.add_comm lists.length, ← Nat.add_assoc] at hroom
    have hnow : joinedCapacity each (n + 1) * recordRoom ≤ allocationLimit :=
      Nat.le_trans (Nat.mul_le_mul_right _ (joinedCapacity_le_add ..)) hroom
    rw [List.map_cons, join, hneeded]
    show (if allocationLimit < joinedCapacity each (n + 1) * recordRoom then _ else _) = _
    rw [if_neg (Nat.not_lt.2 hnow)]
    refine (ih (fun l' hl' => hlength l' (List.mem_cons_of_mem _ hl')) (n + 1) (joined ++ l)
      (List.length_append.trans hneeded) hroom).trans ?_
    rw [List.flatten_cons, List.append_assoc]

/-- The records of appenders that have met no error are joined, if there is room for them. -/
theorem joinAll_eq {appenders : List Appender} {each size : Nat}
    (hfits : StressFits appenders.length each size) (hsound : ∀ a ∈ appenders, a.failure = none)
    (hlength : ∀ a ∈ appenders, a.written.length = each) :
    joinAll appenders = .ok (appenders.flatMap Appender.written) := by
  have hresults : appenders.map Appender.result = (appenders.map Appender.written).map Except.ok := by
    rw [List.map_map]
    refine List.map_congr_left fun a ha => ?_
    rw [Appender.result, hsound a ha]
    rfl
  have hlists : ∀ l ∈ appenders.map Appender.written, l.length = each := by
    intro l hl
    obtain ⟨a, ha, rfl⟩ := List.mem_map.1 hl
    exact hlength a ha
  rw [joinAll, if_neg (Nat.not_lt.2 hfits.results), hresults, List.flatMap_def]
  refine join_eq _ hlists 0 [] (Nat.zero_mul each).symm ?_
  rw [List.length_map, Nat.zero_add]
  exact hfits.joined

/-! ### Any run -/

variable {files tree : FileTree} {path : String} {settings : Settings} {location : Location}
  {initial : Bytes} {payloads : List Bytes} {threads each size clients limit : Nat}
  {m₀ m₁ m : Machine Device.File} {before during : History Device.File} {log : Log Device.File}

/-- What the check of a stress test comes to whose appends have left `payloads`, whenever the writer takes its
    steps. -/
structure Checks (initial : Bytes) (settings : Settings) (payloads : List Bytes) (size : Nat)
    (during : History Device.File) (m : Machine Device.File) : Prop where
  /-- It comes to an end: there are only so many steps, and where none can be taken nobody is under way. -/
  ends : (∀ actor m', m.step? actor = some m' → m'.potential < m.potential) ∧
    ((∀ actor, m.step? actor = none) → ∀ p ∈ m.clients, p.isIdle = true)
  /-- Each read brings its record back. -/
  back : ∀ earlier w later, laidOut 0 payloads = earlier ++ w :: later →
    during.requests = readsOf (earlier ++ [w]) → (∀ p ∈ m.clients, p.isIdle = true) →
    m.reply? 0 = some (.ok (.bytes w.payload))
  /-- Where all reads are over the totals are told from the number of the records and their size, all but the
      flushes. -/
  counted : during.requests = readsOf (laidOut 0 payloads) → (∀ p ∈ m.clients, p.isIdle = true) →
    m.state.totals = stressTotals settings.fileBlockSize settings.cacheBlocks payloads.length size
      m.state.totals.flushes
  /-- Where the close is over the device has the records one behind the other, zeros up to the end of the last
      block, and what was behind that before. -/
  closed : during.requests = readsOf (laidOut 0 payloads) ++ [.close] →
    (∀ p ∈ m.clients, p.isIdle = true) → m.reply? 0 = some (.ok .done) ∧
      m.device.contents.toList = Bytes.image settings.fileBlockSize payloads.flatten initial

theorem given_of_reads {records : List Written} (h : during.requests = readsOf records) :
    during.given = 0 := by
  rw [History.given, h, payloads_readsOf]
  rfl

/-- When the reads are over less than a block is in the ring, also if there are none. -/
theorem filled_lt_of_readsOf
    (H : Handed (found path location settings initial) settings clients limit before m₀ m₁)
    (hlog : before.log = payloads.flatten) (hle : before.given + during.given ≤ limit)
    (h : Reaches m₁ during m) (hby : during.GivenBy 0)
    (hrequests : during.requests = readsOf (laidOut 0 payloads))
    (hidle : ∀ p ∈ m.clients, p.isIdle = true) :
    m.state.ring.filled < m.state.ring.blockSize := by
  rcases List.eq_nil_or_concat (laidOut 0 payloads) with hnone | ⟨earlier, w, hlast⟩
  · obtain ⟨⟨flushed, hinv⟩, -⟩ := inv_of_reaches H.opened (H.reached.trans h)
    have hempty : (during ++ before).log = [] := by
      rw [H.log_eq h hby hle hidle, hrequests, payloads_readsOf, List.append_nil, hlog,
        ← map_payload_laidOut 0 payloads, hnone]
      rfl
    have hend := hinv.consistent.buffers.endOffset
    rw [hempty] at hend
    refine Nat.lt_of_le_of_lt ?_ hinv.consistent.buffers.pad_lt
    rw [← Nat.zero_add m.state.pad]
    exact hend ▸ Nat.le_add_left ..
  · have hread : during.requests.getLast? = some (.read w.offset w.payload.length) := by
      rw [hrequests, hlast, List.concat_eq_append, readsOf, List.map_append]
      exact List.getLast?_concat ..
    exact filled_lt_of_flushed H.opened H.reached H.idle (H.owner_lt H.reached) H.filled_lt h hby
      (H.unfailing h hle) hidle hread rfl

theorem checks_of_reaches (hs : settings.Usable)
    (H : Handed (found path location settings initial) settings clients limit before m₀ m₁)
    (hdue : m₁.due initial before.log before.deviceCalls = Prompt.append
      { blockSize := settings.fileBlockSize, slots := settings.cacheBlocks, initial } payloads.flatten)
    (hsize : ∀ p ∈ payloads, p.length = size)
    (hle : before.given ≤ limit) (h : Reaches m₁ during m) (hby : during.GivenBy 0) :
    Checks initial settings payloads size during m := by
  have hpos := hs.blockSize_pos
  have hall := H.reached.trans h
  obtain ⟨⟨flushed, hinv⟩, -⟩ := inv_of_reaches H.opened hall
  have hfresh : m₁.due (contents (found path location settings initial)) before.log
      before.deviceCalls = Prompt.append
        { blockSize := settings.fileBlockSize, slots := settings.cacheBlocks, initial }
        payloads.flatten := by rw [contents_found]; exact hdue
  have hread : ∀ records : List Written, during.requests = readsOf records →
      before.given + during.given ≤ limit := by
    intro records hrequests
    rw [given_of_reads hrequests]
    exact hle
  refine ⟨⟨fun actor m' => hinv.potential_lt, (settles_of_reaches H.opened hall).idle⟩, ?_, ?_, ?_⟩
  · intro earlier w later hsplit hrequests hidle
    have hlast : during.requests = readsOf earlier ++ [.read w.offset w.payload.length] := by
      rw [hrequests, readsOf, List.map_append]
      rfl
    obtain ⟨-, -, hreply⟩ := H.served_last h hby (hread _ hrequests) hidle hlast rfl rfl
    have hmem : w ∈ laidOut ([] : Bytes).length payloads := by
      show w ∈ laidOut 0 payloads
      rw [hsplit]
      simp
    obtain ⟨hstop, hslice⟩ := slice_of_mem hmem
    rw [hreply, (Prompt.foldl_call_frame _ _).2.2, payloads_readsOf, List.append_nil, hfresh]
    refine (congrArg some (answer_read_of_le hstop)).trans ?_
    exact congrArg (fun bytes => some (Except.ok (Answer.bytes bytes))) hslice
  · intro hrequests hidle
    have hlt := filled_lt_of_readsOf H (congrArg Prompt.log hdue) (hread _ hrequests) h hby hrequests hidle
    obtain ⟨htotals, -⟩ := served_of_reaches H.opened H.reached H.idle (H.owner_lt H.reached) H.filled_lt
      h hby (H.unfailing h (hread _ hrequests)) hidle hlt rfl
    rw [hrequests, hfresh] at htotals
    exact htotals.trans
      ((call_readsOf hpos settings.cacheBlocks initial hsize rfl rfl).2 m.state.totals.flushes)
  · intro hrequests hidle
    have hgiven : during.given = 0 := by
      rw [History.given, hrequests, List.map_append, List.flatten_append, payloads_readsOf]
      rfl
    obtain ⟨-, hstored, hreply⟩ := H.served_last h hby (by rw [hgiven]; exact hle) hidle hrequests rfl rfl
    refine ⟨hreply, hstored.trans ?_⟩
    rw [hfresh, ← (call_readsOf hpos settings.cacheBlocks initial hsize rfl rfl).1]
    exact ((Prompt.stores_start ..).call hpos (.append payloads.flatten)).close _ hpos

/-! ### The command -/

/-- Records that are on the log are read back as they are. -/
theorem countMisread_eq
    (H : Handed (found path location settings initial) settings clients limit before m₀ m₁)
    (hle : before.given ≤ limit) (records : List Written) : ∀ {done : List Written}
      {log : Log Device.File} {during : History Device.File}, Rests m₁ during log →
      during.requests = readsOf done →
      (∀ w ∈ records, w.stop ≤ before.log.length ∧
        before.log.slice w.offset w.payload.length = w.payload) →
      (countMisread log records).2 = .ok 0 ∧ ∃ during' : History Device.File,
        Rests m₁ during' (countMisread log records).1 ∧ during'.requests = readsOf (done ++ records) := by
  induction records with
  | nil => exact fun A hdone _ => ⟨rfl, _, A, by rw [List.append_nil]; exact hdone⟩
  | cons w records ih =>
    intro done log during A hdone hthere
    obtain ⟨hstop, hslice⟩ := hthere w List.mem_cons_self
    obtain ⟨during', A', hrequests, hreply⟩ := H.await A (hdone ▸ close_notMem_readsOf done)
      (.read w.offset w.payload.length) (by rw [given_of_reads hdone]; exact hle)
    have hreply : (log.await (.read w.offset w.payload.length)).2 = .ok (.bytes w.payload) := by
      rw [hreply, (Prompt.foldl_call_frame _ _).2.2, hdone, payloads_readsOf, List.append_nil]
      exact (answer_read_of_le hstop).trans (congrArg (fun bytes => Except.ok (Answer.bytes bytes)) hslice)
    obtain ⟨hok, during'', A'', hrequests'⟩ := ih A'
      (show during'.requests = readsOf (done ++ [w]) by
        rw [hrequests, hdone, readsOf, readsOf, List.map_append]; rfl)
      (fun v hv => hthere v (List.mem_cons_of_mem _ hv))
    have hstep : countMisread log (w :: records) =
        ((countMisread (log.await (.read w.offset w.payload.length)).1 records).1, .ok 0) := by
      rw [countMisread, Log.read]
      dsimp only
      rw [hreply]
      show (_, (countMisread _ records).2.map _) = _
      rw [hok]
      exact congrArg (Prod.mk _) (congrArg Except.ok (if_pos rfl))
    rw [hstep]
    exact ⟨rfl, during'', A'', by rw [hrequests', List.append_assoc]; rfl⟩

/-- Records of one size that lie one behind the other pass the check. -/
theorem checkWritten_eq (threads : Nat) (hs : settings.Usable)
    (H : Handed (found path location settings initial) settings clients limit before m₀ m₁)
    (hdue : m₁.due initial before.log before.deviceCalls = Prompt.append
      { blockSize := settings.fileBlockSize, slots := settings.cacheBlocks, initial } payloads.flatten)
    (hsize : ∀ p ∈ payloads, p.length = size) (hle : before.given ≤ limit) (hquiet : Quiet m₁) :
    ∃ (log : Log Device.File) (during : History Device.File) (flushes : Nat), Rests m₁ during log ∧
      during.requests = readsOf (laidOut 0 payloads) ∧
      checkWritten threads (laidOut 0 payloads) { machine := m₁ } =
        (log, .ok (stressLine payloads.length threads (payloads.length * size) ::
          (stressTotals settings.fileBlockSize settings.cacheBlocks payloads.length size
            flushes).lines)) := by
  have hlog : before.log = payloads.flatten := congrArg Prompt.log hdue
  have A : Rests m₁ [] { machine := m₁ } :=
    ⟨.start, fun now hnow => (by cases hnow), hquiet, fun now hnow => (by cases hnow), .same, rfl⟩
  obtain ⟨hok, during, A', hrequests⟩ := countMisread_eq H hle (laidOut 0 payloads) A
    (show History.requests _ = readsOf [] from rfl) fun w hw => by
      rw [hlog]
      exact slice_of_mem (show w ∈ laidOut ([] : Bytes).length payloads from hw)
  rw [List.nil_append] at hrequests
  have htotals := (checks_of_reaches hs H hdue hsize hle A'.reached A'.given).counted hrequests
    A'.quiet.idle
  have hcount : countMisread { machine := m₁ } (laidOut 0 payloads) =
      ((countMisread { machine := m₁ } (laidOut 0 payloads)).1, .ok 0) := Prod.ext rfl hok
  refine ⟨_, during, (countMisread { machine := m₁ } (laidOut 0 payloads)).1.totals.flushes, A',
    hrequests, ?_⟩
  rw [checkWritten, tile_laidOut, hcount]
  dsimp only
  rw [if_pos rfl, Log.totals, htotals, length_laidOut, length_flatten_of_size hsize,
    Nat.zero_add]
  rfl

/-- The payloads of a stress test, in the order in which they came. -/
def stressPayloads (size : Nat) (order : List (Nat × Nat)) : List Bytes :=
  order.map fun x => sampleRecord x.1 x.2 size

@[simp] theorem length_sampleRecord (t r size : Nat) : (sampleRecord t r size).length = size := by
  rw [sampleRecord, List.length_map, List.length_range]

theorem length_of_mem_stressPayloads {order : List (Nat × Nat)} :
    ∀ p ∈ stressPayloads size order, p.length = size := by
  intro p hp
  obtain ⟨x, -, rfl⟩ := List.mem_map.1 hp
  exact length_sampleRecord x.1 x.2 size

/-- How many bytes the appenders have to append. -/
theorem total_stressRecords (threads each size : Nat) :
    total (fun pending => pending.flatten.length) (stressRecords threads each size) =
      threads * each * size := by
  have heach : ∀ pending ∈ stressRecords threads each size, pending.flatten.length = each * size := by
    intro pending hpending
    obtain ⟨t, -, rfl⟩ := List.mem_map.1 hpending
    have hsize : ∀ p ∈ (List.range each).map fun r => sampleRecord t r size, p.length = size := by
      intro p hp
      obtain ⟨r, -, rfl⟩ := List.mem_map.1 hp
      exact length_sampleRecord t r size
    rw [length_flatten_of_size hsize, List.length_map, List.length_range]
  rw [total_eq_mul heach, stressRecords, List.length_map, List.length_range, Nat.mul_assoc]

/-- What the appends of a stress test leave, whatever turns they have taken. -/
structure Left (initial : Bytes) (settings : Settings) (threads each size : Nat)
    (past : History Device.File) (w : Workload Device.File) (order : List (Nat × Nat)) : Prop where
  interleaves : Interleaves threads each order
  appenders : w.appenders.length = threads
  written : ∀ a ∈ w.appenders, a.written.length = each
  records : w.records = laidOut 0 (stressPayloads size order)
  due : w.machine.due initial past.log past.deviceCalls = Prompt.append
    { blockSize := settings.fileBlockSize, slots := settings.cacheBlocks, initial }
    (stressPayloads size order).flatten

theorem exists_left {w : Workload Device.File} {past : History Device.File}
    (H : Handed (found path location settings initial) settings clients limit [] m₁ m₁)
    (h : Works (found path location settings initial) m₁ limit (stressRecords threads each size) past w)
    (hthrough : w.Through) : ∃ order, Left initial settings threads each size past w order := by
  obtain ⟨order, hinterleaves, hpayloads⟩ := h.exists_order hthrough rfl
  refine ⟨order, hinterleaves, ?_, fun a ha => ?_, ?_, ?_⟩
  · rw [← List.length_map Appender.all, h.whole, stressRecords, List.length_map, List.length_range]
  · obtain ⟨t, -, hmine⟩ := List.mem_map.1 (h.written_mem hthrough ha)
    rw [← List.length_map Written.payload, ← hmine, List.length_map, List.length_range]
  · refine byOffset_eq_laidOut length_of_mem_stressPayloads ?_
    rw [stressPayloads, hpayloads]
    exact h.written_perm H hthrough
  · have hdue := h.due_eq H hthrough
    rw [contents_found] at hdue
    rw [stressPayloads, hpayloads]
    exact hdue

/-- The appenders come to a log that has been opened for the command. -/
theorem exists_team (hs : settings.Usable)
    (hroom : threads * each * size + settings.fileBlockSize < Device.File.offsetLimit)
    (h₀ : Machine.open? (found path location settings initial) settings 1 = .ok m₀) :
    ∃ clients m₁ past, Handed (found path location settings initial) settings clients
        (threads * each * size) [] m₁ m₁ ∧
      Works (found path location settings initial) m₁ (threads * each * size)
        (stressRecords threads each size) past
        (Workload.start m₀.settle (stressRecords threads each size)) := by
  obtain ⟨m₁, h₁⟩ := hs.opens (found path location settings initial) rfl
    (1 + (stressRecords threads each size).length)
  have H := handed_open h₁ (Nat.lt_add_right _ Nat.one_pos) hroom
  obtain ⟨past, h⟩ := Works.join h₀ H (Nat.le_of_eq (total_stressRecords ..))
  exact ⟨_, m₁, past, H, h⟩

/-- Where the log opens and no list asks for more than it can have, a stress test of appenders that come
    and go as they like passes.

    Whatever the turns of the appenders and the writer are, the command is a success. It reports all records
    and their bytes, and totals that are told from the sizes alone, the flushes apart. Afterwards the
    device file has the records, in an order that keeps those of each appender in turn, zeros up to the
    end of the last block, and what was behind that before.

    The reads of the command run by the schedule of the log. But from where all appenders are through
    they come to the same whenever the writer takes its steps. -/
theorem stress_passes
    (hfile : files.openFile path settings.create = .ok (tree, location, .file initial))
    (hopen : (Log.openAt files path settings).2 = .ok log) (hfits : StressFits threads each size)
    (hroom : threads * each * size + settings.fileBlockSize < Device.File.offsetLimit) :
    (∀ schedule, ∃ order flushes, Interleaves threads each order ∧
      stress files path settings threads each size schedule =
        { files := tree.put location (.file (Bytes.image settings.fileBlockSize
            (stressPayloads size order).flatten initial))
          lines := stressLine (threads * each) threads (threads * each * size) ::
            (stressTotals settings.fileBlockSize settings.cacheBlocks (threads * each) size
              flushes).lines
          ending := .success }) ∧
    ∀ m₀ schedule w, Machine.open? (found path location settings initial) settings 1 = .ok m₀ →
      w = (Workload.start m₀.settle (stressRecords threads each size)).play schedule → w.Through →
      (∀ a ∈ w.appenders, a.failure = none) ∧ tile 0 w.records = .ok (threads * each * size) ∧
      ∃ order, Interleaves threads each order ∧ w.records = laidOut 0 (stressPayloads size order) ∧
        ∀ during m, Reaches w.machine during m → during.GivenBy 0 →
          Checks initial settings (stressPayloads size order) size during m := by
  have hs := (openAt_isOk_iff hfile).1 ⟨log, hopen⟩
  have hcount : ∀ {order}, Interleaves threads each order →
      (stressPayloads size order).length = threads * each := fun h => by
    rw [stressPayloads, List.length_map, h.length_eq]
  refine ⟨fun schedule => ?_, fun m₀ schedule w h₀ hw hthrough => ?_⟩
  · obtain ⟨m₀, h₀⟩ := hs.opens (found path location settings initial) rfl 1
    obtain ⟨clients, m₁, past, H, h⟩ := exists_team hs hroom h₀
    obtain ⟨past', h', hpaused, hthrough⟩ := h.run H schedule
    obtain ⟨order, hleft⟩ := exists_left H h' hthrough
    have H' := h'.handed H hthrough
    have hle : past'.given ≤ threads * each * size := Nat.le_trans (Nat.le_add_right ..) h'.room
    have hjoined := joinAll_eq (hleft.appenders.symm ▸ hfits) h'.sound hleft.written
    obtain ⟨log, during, flushes, A, hrequests, hcheck⟩ := checkWritten_eq threads hs H' hleft.due
      length_of_mem_stressPayloads hle hpaused.quiet
    obtain ⟨hclosed, hsaved⟩ := close_eq H' A (hrequests ▸ close_notMem_readsOf _)
      (by rw [given_of_reads hrequests]; exact hle) hleft.due
      ((Prompt.stores_start ..).call hs.blockSize_pos (.append _)) hs.blockSize_pos
    rw [hrequests, (call_readsOf hs.blockSize_pos _ _ length_of_mem_stressPayloads rfl rfl).1] at hsaved
    refine ⟨order, flushes, hleft.interleaves, withLog_eq hfile hs h₀ ?_ hclosed hsaved⟩
    rw [hcount hleft.interleaves, ← hleft.records] at hcheck
    rw [stressWork, if_pos hfits.toAppend]
    dsimp only
    rw [hjoined]
    exact hcheck
  · obtain ⟨clients, m₁, past, H, h⟩ := exists_team hs hroom h₀
    obtain ⟨past', h'⟩ := Works.play H schedule h
    rw [← hw] at h'
    obtain ⟨order, hleft⟩ := exists_left H h' hthrough
    have H' := h'.handed H hthrough
    have hle : past'.given ≤ threads * each * size := Nat.le_trans (Nat.le_add_right ..) h'.room
    refine ⟨h'.sound, ?_, order, hleft.interleaves, hleft.records, fun during m hreach hby =>
      checks_of_reaches hs H' hleft.due length_of_mem_stressPayloads hle hreach hby⟩
    rw [hleft.records, tile_laidOut, length_flatten_of_size length_of_mem_stressPayloads,
      hcount hleft.interleaves, Nat.zero_add]

/-- Two appenders with a record each, of which the second gets the first turn. -/
theorem stress_of_two : ∃ order flushes, Interleaves 2 1 order ∧
    stress { working := [], entries := [(["d"], .file [1, 2, 3])] } "d"
      { bufferBlocks := 1, cacheBlocks := 1, blockSize := some 2 } 2 1 1 [.append 1] =
        { files := FileTree.put { working := [], entries := [(["d"], .file [1, 2, 3])] } ["d"]
            (.file (Bytes.image 2 (stressPayloads 1 order).flatten [1, 2, 3]))
          lines := "stress ok: 2 records from 2 threads, 2 bytes" :: (Totals.mk 2 1 flushes 1 1).lines
          ending := .success } := by
  have hfile : FileTree.openFile { working := [], entries := [(["d"], .file [1, 2, 3])] } "d" false =
      .ok ({ working := [], entries := [(["d"], .file [1, 2, 3])] }, ["d"], .file [1, 2, 3]) := rfl
  have hs : Settings.Usable { bufferBlocks := 1, cacheBlocks := 1, blockSize := some 2 } :=
    ⟨by decide, by decide, by decide, by decide, by decide, by decide⟩
  obtain ⟨log, hopen⟩ := (openAt_isOk_iff hfile).2 hs
  have hfits : StressFits 2 1 1 := ⟨by decide, by decide, by decide⟩
  obtain ⟨order, flushes, hinterleaves, hreport⟩ :=
    (stress_passes hfile hopen hfits (by decide)).1 [.append 1]
  have hline : stressLine 2 2 2 = "stress ok: 2 records from 2 threads, 2 bytes" := by decide +kernel
  have htotals : stressTotals 2 1 2 1 flushes = ⟨2, 1, flushes, 1, 1⟩ := rfl
  refine ⟨order, flushes, hinterleaves, hreport.trans ?_⟩
  rw [← hline, ← htotals]
  rfl

/-- Sizes that no memory has room for are refused before the log is opened. -/
theorem stress_out_of_memory :
    stress { working := [], entries := [(["d"], .file [1, 2, 3])] } "d"
      { bufferBlocks := 18446744073709551615, cacheBlocks := 1, blockSize := some 1 } 1 1 1 [] =
        { files := { working := [], entries := [(["d"], .file [1, 2, 3])] }
          lines := []
          ending := .failure (.log (.outOfMemory .region)) } := by
  rfl

end Command

end BlockLog
