import BlockLog.Proofs.Log.Calls

/-! A log whose writer is always done. Whenever bytes complete a block, the block goes to the device at
    once; so there is no schedule, and what a sequence of calls does is a function of the calls. It
    keeps no ring: what it does to the device and to the cache follows from the length of the log.

        append:   ─┤ log ├─── data ───┤        the blocks that end in `data` are written
        flush:    ─┤ log ├ zeros ┤             so is the last one, filled up
        read:     a flush, then the blocks of the range one by one, each from the cache or from the
                  device -/

namespace BlockLog

/-! ### Blocks and ranges of them -/

/-- The writes that put the blocks from `first` to before `stop` of some data on the device. -/
def writes (blockSize : Nat) (data : Bytes) (first stop : Nat) : List DeviceCall :=
  (List.range' first (stop - first)).map fun b =>
    .write (b * blockSize) (data.block blockSize b) .done

section

variable {blockSize first mid stop : Nat}

theorem writes_self (data : Bytes) (n : Nat) : writes blockSize data n n = [] := by
  rw [writes, Nat.sub_self]
  rfl

theorem writes_cons (data : Bytes) (h : first < stop) : writes blockSize data first stop =
    .write (first * blockSize) (data.block blockSize first) .done ::
      writes blockSize data (first + 1) stop := by
  rw [writes, show stop - first = (stop - (first + 1)) + 1 by omega, List.range'_succ]
  rfl

theorem writes_append (data : Bytes) (h : first ≤ mid) (h' : mid ≤ stop) :
    writes blockSize data first mid ++ writes blockSize data mid stop =
      writes blockSize data first stop := by
  have hmid : mid = first + 1 * (mid - first) := by omega
  rw [writes, writes, writes, ← List.map_append]
  congr 1
  rw [show List.range' mid (stop - mid) =
    List.range' (first + 1 * (mid - first)) (stop - mid) by rw [← hmid], List.range'_append]
  congr 1
  omega

/-- Blocks keep their bytes when more are appended behind them. -/
theorem writes_extend {data : Bytes} (more : Bytes) (h : stop * blockSize ≤ data.length) :
    writes blockSize (data ++ more) first stop = writes blockSize data first stop := by
  refine List.map_congr_left fun b hb => ?_
  obtain ⟨hfirst, hlt⟩ := List.mem_range'_1.1 hb
  have hle : (b + 1) * blockSize ≤ stop * blockSize := Nat.mul_le_mul_right _ (by omega)
  rw [Nat.succ_mul] at hle
  rw [Bytes.block, Bytes.block, Bytes.slice_append_of_le (by omega)]

end

/-- The blocks that a range touches. -/
def touched (blockSize start len : Nat) : List Nat :=
  if len = 0 then []
  else List.range' (start / blockSize) ((start + len - 1) / blockSize + 1 - start / blockSize)

/-- The first of them, and those that the rest of the range touches. -/
theorem touched_cons {blockSize start len count : Nat} (hpos : 0 < blockSize) (hlen : 0 < len)
    (hcount : count = min (blockSize - start % blockSize) len) :
    touched blockSize start len =
      start / blockSize :: touched blockSize (start + count) (len - count) := by
  have hsplit := Nat.div_add_mod start blockSize
  have hwithin := Nat.mod_lt start hpos
  rw [touched, if_neg (by omega), touched]
  by_cases hlast : len ≤ blockSize - start % blockSize
  · have hsame : (start + len - 1) / blockSize = start / blockSize := by
      rw [Nat.div_eq_iff hpos]
      rw [Nat.mul_comm] at hsplit
      omega
    rw [hsame, if_pos (by omega), Nat.add_sub_cancel_left]
    rfl
  · have hnext : (start + count) / blockSize = start / blockSize + 1 := by
      rw [show start + count = blockSize * (start / blockSize + 1) by rw [Nat.mul_succ]; omega,
        Nat.mul_div_cancel_left _ hpos]
    have hle : start / blockSize + 1 ≤ (start + len - 1) / blockSize := by
      rw [← hnext]
      exact Nat.div_le_div_right (by omega)
    rw [if_neg (by omega), hnext, show start + count + (len - count) - 1 = start + len - 1 by omega,
      show (start + len - 1) / blockSize + 1 - start / blockSize =
        ((start + len - 1) / blockSize + 1 - (start / blockSize + 1)) + 1 by omega, List.range'_succ]

/-! ### The log -/

/-- A log whose writer is always done. -/
@[ext] structure Prompt where
  blockSize : Nat
  /-- How many slots the cache has. -/
  slots : Nat
  /-- What the device contained at first. -/
  initial : Bytes
  log : Bytes := []
  deviceCalls : List DeviceCall := []
  cached : Nat → Option Bytes := fun _ => none
  written : Nat := 0
  hits : Nat := 0
  misses : Nat := 0

namespace Prompt

/-- Write the blocks from `first` to before `stop` of some data. The cache drops them. -/
def writeBlocks (ρ : Prompt) (data : Bytes) (first stop : Nat) : Prompt :=
  { ρ with
    deviceCalls := ρ.deviceCalls ++ writes ρ.blockSize data first stop
    cached := fun b => if first ≤ b ∧ b < stop then none else ρ.cached b
    written := ρ.written + (stop - first) }

/-- Write the blocks of some data that the log does not fill: those behind its last whole block. -/
def writeOut (ρ : Prompt) (data : Bytes) : Prompt :=
  ρ.writeBlocks data (ρ.log.length / ρ.blockSize) (data.length / ρ.blockSize)

def append (ρ : Prompt) (data : Bytes) : Prompt :=
  { ρ.writeOut (ρ.log ++ data) with log := ρ.log ++ data }

/-- Flush: the last block is filled up and written, but the log does not grow. -/
def settle (ρ : Prompt) : Prompt := ρ.writeOut (ρ.log.padded ρ.blockSize)

/-- What the device contains after a flush. -/
def contents (ρ : Prompt) : Bytes := Bytes.image ρ.blockSize ρ.log ρ.initial

/-- Look a block up. A miss fetches it, in the place of whatever had its slot. -/
def lookup (ρ : Prompt) (block : Nat) : Prompt :=
  match ρ.cached block with
  | some _ => { ρ with hits := ρ.hits + 1 }
  | none =>
    { ρ with
      deviceCalls := ρ.deviceCalls ++ [.read (block * ρ.blockSize) ρ.blockSize (.ok ())]
      cached := fun b =>
        if b % ρ.slots = block % ρ.slots then
          if b = block then some (ρ.contents.block ρ.blockSize block) else none
        else ρ.cached b
      misses := ρ.misses + 1 }

/-- Look up the blocks of a range. -/
def lookups (ρ : Prompt) (start len : Nat) : Prompt :=
  (touched ρ.blockSize start len).foldl lookup ρ

def sync (ρ : Prompt) : Prompt := { ρ with deviceCalls := ρ.deviceCalls ++ [.sync (.ok ())] }

/-- What comes after the flush of `purpose`. -/
def proceed (ρ : Prompt) : Purpose → Prompt
  | .flush => ρ
  | .read offset len => if ρ.log.length < offset + len then ρ else ρ.lookups offset len
  | .close => ρ.sync

/-- What a call does. -/
def call (ρ : Prompt) : Request → Prompt
  | .append data => ρ.append data
  | .flush => ρ.settle.proceed .flush
  | .read offset len => ρ.settle.proceed (.read offset len)
  | .close => ρ.settle.proceed .close

/-- What is left to do of the call of a client at this point. -/
def after (ρ : Prompt) : ClientPoint → Prompt
  | .idle _ => ρ
  | .appendCalled data | .appendAdmitted data => ρ.append data
  | .appendWaiting _ rest _ _ => ρ.append rest
  | .flushCalled purpose | .flushAdmitted purpose => ρ.settle.proceed purpose
  | .flushWaiting purpose _ _ => ρ.proceed purpose
  | .readCalled offset len => ρ.lookups offset len
  | .reading offset len got => ρ.lookups (offset + got.length) (len - got.length)
  | .stopping _ | .stopped _ | .joining _ | .syncing _ _ => ρ.sync

variable (ρ : Prompt)

/-! ### Blocks written -/

section

variable (data : Bytes) {first mid stop : Nat}

theorem writeBlocks_self (n : Nat) : ρ.writeBlocks data n n = ρ := by
  apply Prompt.ext <;> try rfl
  · simp [writeBlocks, writes_self]
  · funext b
    exact if_neg (by omega)
  · simp [writeBlocks]

/-- Blocks can be written in parts. -/
theorem writeBlocks_writeBlocks (h : first ≤ mid) (h' : mid ≤ stop) :
    (ρ.writeBlocks data first mid).writeBlocks data mid stop = ρ.writeBlocks data first stop := by
  apply Prompt.ext <;> try rfl
  · show ρ.deviceCalls ++ writes ρ.blockSize data first mid ++ writes ρ.blockSize data mid stop = _
    rw [List.append_assoc, writes_append data h h']
    rfl
  · funext b
    simp only [writeBlocks]
    grind
  · simp only [writeBlocks]
    omega

theorem writeBlocks_extend (more : Bytes) (h : stop * ρ.blockSize ≤ data.length) :
    ρ.writeBlocks (data ++ more) first stop = ρ.writeBlocks data first stop := by
  rw [writeBlocks, writes_extend more h, writeBlocks]

end

/-- What has been cached of the blocks written does not matter. -/
theorem writeBlocks_cached (data : Bytes) (first stop : Nat) (cached : Nat → Option Bytes)
    (h : ∀ b, first ≤ b ∧ b < stop ∨ cached b = ρ.cached b) :
    { ρ with cached := cached }.writeBlocks data first stop = ρ.writeBlocks data first stop := by
  have hcached : ({ ρ with cached := cached }.writeBlocks data first stop).cached =
      (ρ.writeBlocks data first stop).cached := by
    funext b
    rcases h b with hb | hb
    · exact (if_pos hb).trans (if_pos hb).symm
    · simp only [writeBlocks, hb]
  exact Prompt.ext rfl rfl rfl rfl rfl hcached rfl rfl rfl

/-- Where the blocks that the log fills have been written, those that it fills together with some
    more bytes can be written next. -/
theorem writeBlocks_writeOut (more : Bytes) {first : Nat}
    (h : first ≤ ρ.log.length / ρ.blockSize) :
    (ρ.writeBlocks ρ.log first (ρ.log.length / ρ.blockSize)).writeOut (ρ.log ++ more) =
      ρ.writeBlocks (ρ.log ++ more) first ((ρ.log ++ more).length / ρ.blockSize) := by
  have hstop : ρ.log.length / ρ.blockSize ≤ (ρ.log ++ more).length / ρ.blockSize :=
    Nat.div_le_div_right (by simp)
  rw [← ρ.writeBlocks_writeBlocks (ρ.log ++ more) h hstop,
    writeBlocks_extend _ _ _ (Nat.div_mul_le_self ..)]
  rfl

@[simp] theorem blockSize_lookup (block : Nat) : (ρ.lookup block).blockSize = ρ.blockSize := by
  unfold lookup
  split <;> rfl

/-! ### A call in parts -/

theorem after_entry (request : Request) : ρ.after request.entry = ρ.call request := by
  cases request <;> rfl

theorem after_woken {p q : ClientPoint} (h : ClientPoint.Woken p q) : ρ.after q = ρ.after p := by
  cases h <;> rfl

/-- Where a client stands after its flush there is left to do what comes after the flush. -/
theorem after_next (purpose : Purpose) {size : Nat} (h : size = ρ.log.length) :
    ρ.after (purpose.next (.ok size)) = ρ.proceed purpose := by
  cases purpose with
  | flush | close => rfl
  | read offset len =>
    rw [h, proceed, Purpose.next]
    split <;> rfl

/-- Nothing appended changes nothing. -/
@[simp] theorem append_nil : ρ.append [] = ρ := by
  rw [append, List.append_nil, writeOut, writeBlocks_self]

/-- Bytes can be appended in parts. -/
theorem append_append (x y : Bytes) : (ρ.append x).append y = ρ.append (x ++ y) := by
  have hle : ρ.log.length / ρ.blockSize ≤ (ρ.log ++ x).length / ρ.blockSize :=
    Nat.div_le_div_right (by simp)
  have hparts := writeBlocks_writeOut { ρ with log := ρ.log ++ x } y hle
  have happend : ρ.append (x ++ y) =
      { ρ.writeOut (ρ.log ++ x ++ y) with log := ρ.log ++ x ++ y } := by
    rw [List.append_assoc]
    rfl
  rw [happend]
  exact congrArg (fun σ : Prompt => { σ with log := ρ.log ++ x ++ y }) hparts

/-- A flush of whole blocks has nothing to write. -/
theorem settle_of_dvd (h : ρ.blockSize ∣ ρ.log.length) : ρ.settle = ρ := by
  rw [settle, writeOut, Bytes.length_padded, Bytes.gap_eq_zero h, Nat.add_zero, writeBlocks_self]

theorem lookups_zero (start : Nat) : ρ.lookups start 0 = ρ := rfl

/-- The blocks of a range can be looked up one by one. -/
theorem lookups_cons {start len count : Nat} (hpos : 0 < ρ.blockSize) (hlen : 0 < len)
    (hcount : count = min (ρ.blockSize - start % ρ.blockSize) len) :
    ρ.lookups start len = (ρ.lookup (start / ρ.blockSize)).lookups (start + count) (len - count) := by
  rw [lookups, touched_cons hpos hlen hcount, List.foldl_cons, lookups, blockSize_lookup]

/-- One block of a read, and the rest of it. -/
theorem after_reading {offset len : Nat} {got more : Bytes} (hpos : 0 < ρ.blockSize)
    (hlen : got.length < len) (hmore : more.length = got.length +
      min (ρ.blockSize - (offset + got.length) % ρ.blockSize) (len - got.length)) :
    (ρ.lookup ((offset + got.length) / ρ.blockSize)).after (.reading offset len more) =
      ρ.after (.reading offset len got) := by
  have hcons : ρ.lookups (offset + got.length) (len - got.length) = _ :=
    ρ.lookups_cons hpos (by omega) rfl
  rw [after, after, hcons, hmore, Nat.add_assoc, Nat.sub_sub]

end Prompt

end BlockLog
