import BlockLog.Proofs.Device.Agreement
import BlockLog.Proofs.Ring.Operation

/-! A device in memory against a byte store that is told by the writes alone: each byte is that of the
    latest write over it, and the end is as far as any write has reached.

        writes:    ├── a ──┤             ├─ c ─┤
                        ├── b ──┤
        contents:  │ a │   b    │ zeros  │  c  │
                                               ▲ reach

    A call fails for the first of three causes that holds: it has been told to, it is misaligned, or
    it is a read past the end. A call that fails leaves the device as it was. Nothing else can go
    wrong as long as the writes end where memory can: `write?` and `read?` check all that might. -/

namespace BlockLog

/-- `a / b`, unless `b` is zero. -/
def quot? (a b : Nat) : Option Nat := if b = 0 then none else some (a / b)

theorem quot?_eq {b : Nat} (h : 0 < b) (a : Nat) : quot? a b = some (a / b) := if_neg (by omega)

namespace Bytes

/-- Zeros behind the end cannot be told from nothing there. -/
theorem getD_append_zeros (data : Bytes) (n i : Nat) :
    (data ++ zeros n).getD i 0 = data.getD i 0 := by
  rw [List.getD_eq_getElem?_getD, List.getD_eq_getElem?_getD, List.getElem?_append]
  split
  · rfl
  · rename_i hi
    rw [List.getElem?_eq_none (Nat.not_lt.1 hi), zeros, List.getElem?_replicate]
    split <;> rfl

/-- Inside the bytes that are written stand those, elsewhere what stood there, or a zero. -/
theorem getD_overwrite (data : Bytes) (start : Nat) (bytes : Bytes) (i : Nat) :
    (data.overwrite start bytes).getD i 0 =
      if start ≤ i ∧ i < start + bytes.length then bytes.getD (i - start) 0 else data.getD i 0 := by
  -- writing behind the end is writing at the end of the string with the gap filled
  have hfilled : data.overwrite start bytes =
      (data ++ zeros (start - data.length)).overwrite start bytes := by
    rcases Nat.le_total start data.length with hle | hle
    · rw [Nat.sub_eq_zero_of_le hle, zeros_zero, List.append_nil]
    · have hstart : (data ++ zeros (start - data.length)).length = start := by simp; omega
      rw [overwrite, overwrite, hstart, List.take_of_length_le hle,
        List.take_of_length_le (Nat.le_of_eq hstart), List.drop_of_length_le (by omega),
        List.drop_of_length_le (by omega), Nat.sub_self, zeros_zero, List.nil_append,
        List.append_assoc]
  rw [hfilled, List.getD_eq_getElem?_getD, getElem?_overwrite bytes (by simp; omega),
    ← getD_append_zeros data (start - data.length)]
  split <;> exact List.getD_eq_getElem?_getD.symm

/-- A string whose bytes are known one by one. -/
theorem slice_eq_map_range {data : Bytes} {f : Nat → UInt8} (h : ∀ i, data.getD i 0 = f i)
    {start len : Nat} (hl : start + len ≤ data.length) :
    data.slice start len = (List.range len).map fun i => f (start + i) := by
  refine List.ext_getElem? fun i => ?_
  rw [getElem?_slice, List.getElem?_map]
  by_cases hi : i < len
  · have hdata : start + i < data.length := by omega
    rw [if_pos hi, List.getElem?_range hi, Option.map_some, ← h (start + i),
      List.getD_eq_getElem?_getD, List.getElem?_eq_getElem hdata, Option.getD_some]
  · rw [if_neg hi, List.getElem?_eq_none (by simp; omega)]
    rfl

end Bytes

namespace Device.Memory

/-- One use of a device in memory. -/
inductive Use where
  | write (offset : Nat) (bytes : Bytes)
  | read (offset len : Nat)
  | refuseWrites (told : Bool)
  | refuseReads (told : Bool)

/-- Where a use writes up to. -/
def Use.stop : Use → Nat
  | .write offset bytes => offset + bytes.length
  | _ => 0

/-- The device after a use of it. -/
def Use.apply (d : Memory) : Use → Memory
  | .write offset bytes => (d.write offset bytes).device
  | .read offset len => (d.read offset len).device
  | .refuseWrites told => { d with refusesWrites := told }
  | .refuseReads told => { d with refusesReads := told }

/-- A new device after a list of uses, the latest first. -/
def after (blockSize : Nat) : List Use → Memory
  | [] => { blockSize := blockSize }
  | use :: uses => use.apply (after blockSize uses)

/-! ### What the uses say -/

/-- A write that went through. -/
structure Patch where
  offset : Nat
  bytes : Bytes

/-- Where a write ends. -/
def Patch.stop (w : Patch) : Nat := w.offset + w.bytes.length

/-- The writes that went through, the latest first. -/
def patches (blockSize : Nat) : List Use → List Patch
  | [] => []
  | .write offset bytes :: uses =>
    if ((after blockSize uses).write offset bytes).outcome = .done then
      ⟨offset, bytes⟩ :: patches blockSize uses
    else patches blockSize uses
  | _ :: uses => patches blockSize uses

/-- The lengths of the reads that went through, the latest first. -/
def fetches (blockSize : Nat) : List Use → List Nat
  | [] => []
  | .read offset len :: uses =>
    if ((after blockSize uses).read offset len).outcome = .ok () then
      len :: fetches blockSize uses
    else fetches blockSize uses
  | _ :: uses => fetches blockSize uses

/-- How far the writes have reached. -/
def reach : List Patch → Nat
  | [] => 0
  | w :: ws => max w.stop (reach ws)

/-- The byte of the latest write over position `i`, zero if there is none. -/
def byteAt : List Patch → Nat → UInt8
  | [], _ => 0
  | w :: ws, i => if w.offset ≤ i ∧ i < w.stop then w.bytes.getD (i - w.offset) 0 else byteAt ws i

/-- The blocks of transfers of these lengths. -/
def blocksOf (blockSize : Nat) : List Nat → Nat
  | [] => 0
  | len :: lens => blocksOf blockSize lens + len / blockSize

/-- Whether writes were last told to fail. -/
def writesRefused : List Use → Bool
  | [] => false
  | .refuseWrites told :: _ => told
  | _ :: uses => writesRefused uses

/-- Whether reads were last told to fail. -/
def readsRefused : List Use → Bool
  | [] => false
  | .refuseReads told :: _ => told
  | _ :: uses => readsRefused uses

/-! ### Calls that check -/

/-- Whether a request covers whole blocks, found out without a division by zero. -/
def aligned? (offset len blockSize : Nat) : Option Bool :=
  if blockSize = 0 then some false
  else do
    if (← rem? offset blockSize) ≠ 0 then some false
    else some ((← rem? len blockSize) == 0)

/-- The device may be asked to end at `stop`, unless no memory is that long. -/
def reaches? (stop : Nat) : Option Unit := if allocationLimit < stop then none else some ()

/-- `write`, with its end and each division checked. -/
def write? (d : Memory) (offset : Nat) (bytes : Bytes) : Option (WriteResult Memory) :=
  if d.refusesWrites then some { device := d, outcome := .failed (.io .injectedWrite) }
  else do
    if ← aligned? offset bytes.length d.blockSize then
      reaches? (offset + bytes.length)
      let blocks ← quot? bytes.length d.blockSize
      some
        { device := { d with
            contents := d.contents.overwrite offset bytes
            writtenBlocks := d.writtenBlocks + blocks }
          outcome := .done }
    else some { device := d, outcome := .failed (.misaligned offset bytes.length d.blockSize) }

/-- `read`, with each division checked. -/
def read? (d : Memory) (offset len : Nat) : Option (ReadResult Memory) :=
  if d.refusesReads then some { device := d, bytes := [], outcome := .error (.io .injectedRead) }
  else do
    if ← aligned? offset len d.blockSize then
      if d.length < offset + len then
        some
          { device := d, bytes := []
            outcome := .error (.refused (.beyondEnd offset len d.length)) }
      else
        let blocks ← quot? len d.blockSize
        some
          { device := { d with readBlocks := d.readBlocks + blocks }
            bytes := d.contents.slice offset len
            outcome := .ok () }
    else
      some { device := d, bytes := [], outcome := .error (.misaligned offset len d.blockSize) }

/-- The device after a use of it, if all that it checks passes. -/
def Use.outcome? (d : Memory) : Use → Option Memory
  | .write offset bytes => (d.write? offset bytes).map (·.device)
  | .read offset len => (d.read? offset len).map (·.device)
  | use => some (use.apply d)

/-- A new device after a list of uses, the latest first, if all that they check passes. -/
def after? (blockSize : Nat) : List Use → Option Memory
  | [] => some { blockSize := blockSize }
  | use :: uses => (after? blockSize uses).bind use.outcome?

variable {d : Memory} {blockSize offset len : Nat} {bytes : Bytes} {uses : List Use}

/-! ### One call -/

theorem write_eq_ite (d : Memory) (offset : Nat) (bytes : Bytes) : d.write offset bytes =
    if d.refusesWrites then { device := d, outcome := .failed (.io .injectedWrite) }
    else if Aligned offset bytes.length d.blockSize then
      { device := { d with
          contents := d.contents.overwrite offset bytes
          writtenBlocks := d.writtenBlocks + bytes.length / d.blockSize }
        outcome := .done }
    else { device := d, outcome := .failed (.misaligned offset bytes.length d.blockSize) } := by
  unfold write writeProblem? requireAligned
  cases d.refusesWrites
  · by_cases ha : Aligned offset bytes.length d.blockSize
    · simp [ha]
    · simp [ha]
  · rfl

theorem read_eq_ite (d : Memory) (offset len : Nat) : d.read offset len =
    if d.refusesReads then { device := d, bytes := [], outcome := .error (.io .injectedRead) }
    else if Aligned offset len d.blockSize then
      if d.length < offset + len then
        { device := d, bytes := []
          outcome := .error (.refused (.beyondEnd offset len d.length)) }
      else
        { device := { d with readBlocks := d.readBlocks + len / d.blockSize }
          bytes := d.contents.slice offset len
          outcome := .ok () }
    else
      { device := d, bytes := [], outcome := .error (.misaligned offset len d.blockSize) } := by
  unfold read readProblem? requireAligned
  cases d.refusesReads
  · by_cases ha : Aligned offset len d.blockSize
    · by_cases hl : d.length < offset + len
      · simp [ha, hl]
      · simp [ha, hl]
    · simp [ha]
  · rfl

theorem aligned?_eq (offset len blockSize : Nat) :
    aligned? offset len blockSize = some (decide (Aligned offset len blockSize)) := by
  unfold aligned?
  by_cases hz : blockSize = 0
  · simp [hz, Aligned]
  · simp only [hz, if_false, rem?_eq (Nat.pos_of_ne_zero hz), Aligned, Option.bind_eq_bind,
      Option.bind_some]
    by_cases ho : offset % blockSize = 0
    · simp [hz, ho, Bool.beq_eq_decide_eq]
    · simp [ho]

/-- The checks of a write that memory has room for all pass. -/
theorem write?_eq (d : Memory) (hroom : offset + bytes.length ≤ allocationLimit) :
    d.write? offset bytes = some (d.write offset bytes) := by
  rw [write_eq_ite, write?, aligned?_eq]
  cases d.refusesWrites
  · by_cases ha : Aligned offset bytes.length d.blockSize
    · have hreaches : reaches? (offset + bytes.length) = some () := if_neg (Nat.not_lt.2 hroom)
      simp [ha, hreaches, quot?_eq (Nat.pos_of_ne_zero ha.1)]
    · simp [ha]
  · rfl

/-- The checks of a read all pass. -/
theorem read?_eq (d : Memory) (offset len : Nat) :
    d.read? offset len = some (d.read offset len) := by
  rw [read_eq_ite, read?, aligned?_eq]
  cases d.refusesReads
  · by_cases ha : Aligned offset len d.blockSize
    · by_cases hl : d.length < offset + len
      · simp [ha, hl]
      · simp [ha, hl, quot?_eq (Nat.pos_of_ne_zero ha.1)]
    · simp [ha]
  · rfl

/-- So do those of any uses that memory has room for. -/
theorem after?_eq (blockSize : Nat) (hroom : ∀ use ∈ uses, use.stop ≤ allocationLimit) :
    after? blockSize uses = some (after blockSize uses) := by
  induction uses with
  | nil => rfl
  | cons use uses ih =>
    have hlast : use.stop ≤ allocationLimit := hroom use List.mem_cons_self
    rw [after?, ih fun u hu => hroom u (List.mem_cons_of_mem _ hu), Option.bind_some, after]
    cases use with
    | write offset bytes => rw [Use.outcome?, write?_eq _ hlast, Option.map_some, Use.apply]
    | read offset len => rw [Use.outcome?, read?_eq, Option.map_some, Use.apply]
    | refuseWrites | refuseReads => rfl

theorem write_done_iff : (d.write offset bytes).outcome = .done ↔
    d.refusesWrites = false ∧ Aligned offset bytes.length d.blockSize := by
  rw [write_eq_ite]
  cases d.refusesWrites
  · by_cases ha : Aligned offset bytes.length d.blockSize <;> simp [ha]
  · simp

theorem read_ok_iff : (d.read offset len).outcome = .ok () ↔
    d.refusesReads = false ∧ Aligned offset len d.blockSize ∧ offset + len ≤ d.length := by
  rw [read_eq_ite]
  cases d.refusesReads
  · by_cases ha : Aligned offset len d.blockSize
    · by_cases hl : d.length < offset + len
      · simp [ha, hl]
      · simp [ha, hl, Nat.not_lt.1 hl]
    · simp [ha]
  · simp

/-- A write that fails leaves the device alone. -/
theorem device_write_of_failed (h : (d.write offset bytes).outcome ≠ .done) :
    (d.write offset bytes).device = d := by
  rcases write_eq d offset bytes with ⟨e, he⟩ | he
  · rw [he]
  · rw [he] at h
    exact absurd rfl h

/-- A read that fails leaves the device alone. -/
theorem device_read_of_failed (h : (d.read offset len).outcome ≠ .ok ()) :
    (d.read offset len).device = d := by
  rcases read_eq d offset len with ⟨e, he⟩ | ⟨-, he⟩
  · rw [he]
  · rw [he] at h
    exact absurd rfl h

/-! ### Any number of calls -/

/-- What the uses of a new device leave it with. -/
structure Matches (blockSize : Nat) (uses : List Use) (d : Memory) : Prop where
  blockSize_eq : d.blockSize = blockSize
  refusesWrites : d.refusesWrites = writesRefused uses
  refusesReads : d.refusesReads = readsRefused uses
  length : d.length = reach (patches blockSize uses)
  whole : blockSize ∣ d.length
  bytes : ∀ i, d.contents.toList.getD i 0 = byteAt (patches blockSize uses) i
  writtenBlocks :
    d.writtenBlocks = blocksOf blockSize ((patches blockSize uses).map (·.bytes.length))
  readBlocks : d.readBlocks = blocksOf blockSize (fetches blockSize uses)

theorem Matches.write (h : Matches blockSize uses (after blockSize uses)) (offset : Nat)
    (bytes : Bytes) : Matches blockSize (.write offset bytes :: uses)
      ((after blockSize uses).write offset bytes).device := by
  by_cases hdone : ((after blockSize uses).write offset bytes).outcome = .done
  · obtain ⟨hrefuses, haligned⟩ := write_done_iff.1 hdone
    rw [write_eq_ite, if_neg (by simp [hrefuses]), if_pos haligned]
    rw [h.blockSize_eq] at haligned ⊢
    have hlength : ((after blockSize uses).contents.overwrite offset bytes).size =
        max (after blockSize uses).length (offset + bytes.length) := Store.size_overwrite ..
    exact
      { blockSize_eq := rfl
        refusesWrites := h.refusesWrites
        refusesReads := h.refusesReads
        length := by
          rw [patches, if_pos hdone, reach, ← h.length, Patch.stop, Nat.max_comm]
          exact hlength
        whole := by
          show blockSize ∣ ((after blockSize uses).contents.overwrite offset bytes).size
          have hstop : blockSize ∣ offset + bytes.length :=
            Nat.dvd_add (Nat.dvd_of_mod_eq_zero haligned.2.1) (Nat.dvd_of_mod_eq_zero haligned.2.2)
          rw [hlength]
          rcases Nat.le_total (after blockSize uses).length (offset + bytes.length) with hle | hle
          · rwa [Nat.max_eq_right hle]
          · rw [Nat.max_eq_left hle]
            exact h.whole
        bytes i := by
          rw [patches, if_pos hdone, byteAt, ← h.bytes i, Store.toList_overwrite,
            Bytes.getD_overwrite]
          rfl
        writtenBlocks := by
          rw [patches, if_pos hdone, List.map_cons, blocksOf, ← h.writtenBlocks]
        readBlocks := h.readBlocks }
  · rw [device_write_of_failed hdone]
    exact
      { h with
        length := by rw [patches, if_neg hdone, ← h.length]
        bytes i := by rw [patches, if_neg hdone, ← h.bytes i]
        writtenBlocks := by rw [patches, if_neg hdone, ← h.writtenBlocks] }

theorem Matches.read (h : Matches blockSize uses (after blockSize uses)) (offset len : Nat) :
    Matches blockSize (.read offset len :: uses)
      ((after blockSize uses).read offset len).device := by
  by_cases hok : ((after blockSize uses).read offset len).outcome = .ok ()
  · obtain ⟨hrefuses, haligned, hlen⟩ := read_ok_iff.1 hok
    rw [read_eq_ite, if_neg (by simp [hrefuses]), if_pos haligned, if_neg (Nat.not_lt.2 hlen),
      h.blockSize_eq]
    exact
      { h with
        blockSize_eq := rfl
        readBlocks := by rw [fetches, if_pos hok, blocksOf, ← h.readBlocks] }
  · rw [device_read_of_failed hok]
    exact
      { h with
        readBlocks := by rw [fetches, if_neg hok, ← h.readBlocks] }

theorem matches_after (blockSize : Nat) (uses : List Use) :
    Matches blockSize uses (after blockSize uses) := by
  induction uses with
  | nil =>
    exact
      { blockSize_eq := rfl
        refusesWrites := rfl
        refusesReads := rfl
        length := rfl
        whole := Nat.dvd_zero blockSize
        bytes i := rfl
        writtenBlocks := rfl
        readBlocks := rfl }
  | cons use uses ih =>
    cases use with
    | write offset bytes => exact ih.write offset bytes
    | read offset len => exact ih.read offset len
    | refuseWrites told => exact { ih with refusesWrites := rfl }
    | refuseReads told => exact { ih with refusesReads := rfl }

/-- What a device does next is what the byte store of its writes says. -/
structure Refers (blockSize : Nat) (uses : List Use) (d : Memory) : Prop where
  /-- The device ends where the writes have reached, which is a whole number of blocks. -/
  length : d.length = reach (patches blockSize uses)
  whole : blockSize ∣ d.length
  /-- Each byte is that of the latest write over it. -/
  contents : d.contents.toList = (List.range d.length).map (byteAt (patches blockSize uses))
  /-- The counters count the blocks of the calls that went through. -/
  writtenBlocks :
    d.writtenBlocks = blocksOf blockSize ((patches blockSize uses).map (·.bytes.length))
  readBlocks : d.readBlocks = blocksOf blockSize (fetches blockSize uses)
  /-- Which calls go through, and what a read returns. -/
  write_done : ∀ offset bytes, offset + bytes.length ≤ allocationLimit →
    ((d.write offset bytes).outcome = .done ↔
      writesRefused uses = false ∧ Aligned offset bytes.length blockSize)
  read_ok : ∀ offset len, (d.read offset len).outcome = .ok () ↔
    readsRefused uses = false ∧ Aligned offset len blockSize ∧ offset + len ≤ d.length
  read_bytes : ∀ offset len, (d.read offset len).outcome = .ok () →
    (d.read offset len).bytes =
      (List.range len).map fun i => byteAt (patches blockSize uses) (offset + i)
  /-- A call that does not leaves the device as it was. -/
  write_failed : ∀ offset bytes, (d.write offset bytes).outcome ≠ .done →
    (d.write offset bytes).device = d
  read_failed : ∀ offset len, (d.read offset len).outcome ≠ .ok () →
    (d.read offset len).device = d
  /-- The causes of a failure, in their order. -/
  write_cause : ∀ offset bytes, offset + bytes.length ≤ allocationLimit →
    (d.write offset bytes).outcome =
      if writesRefused uses then .failed (.io .injectedWrite)
      else if Aligned offset bytes.length blockSize then .done
      else .failed (.misaligned offset bytes.length blockSize)
  read_cause : ∀ offset len, (d.read offset len).outcome =
    if readsRefused uses then .error (.io .injectedRead)
    else if ¬Aligned offset len blockSize then .error (.misaligned offset len blockSize)
    else if d.length < offset + len then .error (.refused (.beyondEnd offset len d.length))
    else .ok ()
  /-- Without a block size no call that has not been told to fail is anything but misaligned. -/
  write_zero : blockSize = 0 → writesRefused uses = false → ∀ offset bytes,
    (d.write offset bytes).outcome = .failed (.misaligned offset bytes.length 0)
  read_zero : blockSize = 0 → readsRefused uses = false → ∀ offset len,
    (d.read offset len).outcome = .error (.misaligned offset len 0)
  /-- Nothing has been divided by zero and nothing is, and the device is never longer than memory. -/
  checked : after? blockSize uses = some d
  write_checked : ∀ offset bytes, offset + bytes.length ≤ allocationLimit →
    d.write? offset bytes = some (d.write offset bytes)
  read_checked : ∀ offset len, d.read? offset len = some (d.read offset len)

/-- A device in memory is the byte store of its writes: after any uses of a new one, of any block
    size, its end, its bytes and its counters are those of the calls that went through, and what it
    does next follows from them. Writes are asked to end where memory can. -/
theorem refers_after (blockSize : Nat) (uses : List Use)
    (hroom : ∀ use ∈ uses, use.stop ≤ allocationLimit) :
    Refers blockSize uses (after blockSize uses) := by
  obtain ⟨hbs, hwrites, hreads, hlength, hwhole, hbytes, hwritten, hread⟩ :=
    matches_after blockSize uses
  have hchecked := after?_eq blockSize hroom
  generalize after blockSize uses = d at *
  constructor
  case length => exact hlength
  case whole => exact hwhole
  case contents =>
    have hall : d.contents.toList.slice 0 d.length = d.contents.toList :=
      List.take_of_length_le (Nat.le_refl _)
    have hstart : 0 + d.length ≤ d.contents.toList.length := by
      rw [Nat.zero_add]
      exact Nat.le_refl _
    rw [← hall, Bytes.slice_eq_map_range hbytes hstart]
    simp only [Nat.zero_add]
  case writtenBlocks => exact hwritten
  case readBlocks => exact hread
  case write_done =>
    intro offset bytes _
    rw [write_done_iff, hwrites, hbs]
  case read_ok =>
    intro offset len
    rw [read_ok_iff, hreads, hbs]
  case read_bytes =>
    intro offset len hok
    have hlen := (read_ok_iff.1 hok).2.2
    rcases read_eq d offset len with ⟨e, he⟩ | ⟨-, he⟩
    · rw [he] at hok
      cases hok
    · rw [he, Store.slice_eq]
      exact Bytes.slice_eq_map_range hbytes hlen
  case write_failed => exact fun _ _ => device_write_of_failed
  case read_failed => exact fun _ _ => device_read_of_failed
  case write_cause =>
    intro offset bytes _
    rw [write_eq_ite, hwrites, hbs]
    split
    · rfl
    · split <;> rfl
  case read_cause =>
    intro offset len
    rw [read_eq_ite, hreads, hbs, ite_not]
    split
    · rfl
    · split
      · split <;> rfl
      · rfl
  case write_zero =>
    intro hzero htold offset bytes
    rw [write_eq_ite, hwrites, hbs, htold, hzero]
    rfl
  case read_zero =>
    intro hzero htold offset len
    rw [read_eq_ite, hreads, hbs, htold, hzero]
    rfl
  case checked => exact hchecked
  case write_checked => exact fun _ _ => write?_eq d
  case read_checked => exact read?_eq d

/-- A gap, an overlap, a misaligned write, a write told to fail, and a read across the end. -/
theorem refers_after_overlap : ∃ uses : List Use,
    uses = [.read 4 4, .write 0 [7, 7], .refuseWrites true, .write 3 [6, 6], .write 2 [3, 4, 5, 5],
      .write 4 [1, 2]] ∧
    (∀ use ∈ uses, use.stop ≤ allocationLimit) ∧ Refers 2 uses (after 2 uses) ∧
    (after 2 uses).contents.toList = [0, 0, 3, 4, 5, 5] := by
  have hroom : ∀ use ∈ [Use.read 4 4, .write 0 [7, 7], .refuseWrites true, .write 3 [6, 6],
      .write 2 [3, 4, 5, 5], .write 4 [1, 2]], use.stop ≤ allocationLimit := by decide
  exact ⟨_, rfl, hroom, refers_after 2 _ hroom, by decide +kernel⟩

/-- At block size 0 a device that has been told to fail its writes fails them for that cause: not
    every write of it is misaligned. -/
theorem refused_before_misaligned :
    ((after 0 [.refuseWrites true]).write 0 []).outcome = .failed (.io .injectedWrite) ∧
      ¬∀ (uses : List Use) (offset : Nat) (bytes : Bytes),
        ((after 0 uses).write offset bytes).outcome =
          .failed (.misaligned offset bytes.length 0) := by
  have hrefused : ((after 0 [.refuseWrites true]).write 0 []).outcome =
      .failed (.io .injectedWrite) := rfl
  refine ⟨hrefused, fun h => ?_⟩
  cases hrefused.symm.trans (h [.refuseWrites true] 0 [])

end Device.Memory

end BlockLog
