import BlockLog.Proofs.Log.Independence

/-! What a prompt log leaves on its device and what it counts. Its device has a prefix of the log, up to
    the last whole block at least, and all of it behind a flush. The blocks that it writes are those
    that the log fills, and one more for each flush of a log that does not end with a block. How often
    it finds a block in its cache hangs on the lengths of what it is given, and not on the bytes.

        log:     ├─ block ─┼─ block ─┼─ rest ─┤
        append:  ├ written ┼ written ┤
        flush:                       ├ written ┤   again with each flush, if there is a rest -/

namespace BlockLog

/-- Blocks written one behind the other over a device that has some data up to the first of them leave it
    there up to the last. -/
theorem foldl_writes {blockSize : Nat} (hpos : 0 < blockSize) (data initial : Bytes) :
    ∀ (count : Nat) {first n : Nat}, first * blockSize ≤ n → n ≤ data.length →
      (0 < count → n ≤ (first + 1) * blockSize) → (first + count) * blockSize ≤ data.length →
      ∃ k, (writes blockSize data first (first + count)).foldl DeviceCall.onto
          (Bytes.image blockSize (data.take n) initial) =
            Bytes.image blockSize (data.take k) initial ∧
        (first + count) * blockSize ≤ k ∧ k ≤ data.length
  | 0, first, n, hfirst, hn, _, _ => ⟨n, by rw [Nat.add_zero, writes_self]; rfl, hfirst, hn⟩
  | count + 1, first, n, hfirst, _, hnext, hstop => by
    have hlast : (first + 1) * blockSize ≤ (first + (count + 1)) * blockSize :=
      Nat.mul_le_mul_right _ (by omega)
    have hle : (first + 1) * blockSize ≤ data.length := by omega
    have hone : (first + 1) * blockSize = first * blockSize + blockSize := Nat.succ_mul ..
    have hlen : (data.take ((first + 1) * blockSize)).length = (first + 1) * blockSize := by
      rw [List.length_take, Nat.min_eq_left hle]
    have hwhole : (data.take ((first + 1) * blockSize)).take (first * blockSize) ++
        data.block blockSize first =
          Bytes.padded blockSize (data.take ((first + 1) * blockSize)) := by
      rw [Bytes.padded, hlen, Bytes.gap_eq_zero (Nat.dvd_mul_left ..), Bytes.zeros_zero,
        List.append_nil, List.take_take, Nat.min_eq_left (by omega), Bytes.block, Bytes.slice, hone,
        List.take_add]
    have hwrite : Bytes.overwrite (Bytes.image blockSize _ initial) _ _ = _ :=
      Bytes.overwrite_image hpos hfirst (by rw [hlen]; exact hnext (Nat.succ_pos _)) hwhole
    rw [List.take_take, Nat.min_eq_left (hnext (Nat.succ_pos _))] at hwrite
    obtain ⟨k, hk, hlow, hhigh⟩ := foldl_writes hpos data initial count
      (Nat.le_refl ((first + 1) * blockSize)) hle (fun _ => Nat.mul_le_mul_right _ (by omega))
      (by rw [Nat.add_assoc, Nat.add_comm 1]; exact hstop)
    rw [Nat.add_assoc, Nat.add_comm 1] at hk hlow
    refine ⟨k, ?_, hlow, hhigh⟩
    rw [writes_cons data (by omega), List.foldl_cons]
    show (writes _ _ _ _).foldl DeviceCall.onto (Bytes.overwrite _ _ _) = _
    rw [hwrite, hk]

namespace Prompt

variable {ρ σ : Prompt}

/-- What the device contains. -/
def stored (ρ : Prompt) : Bytes := ρ.deviceCalls.foldl DeviceCall.onto ρ.initial

/-! ### Lookups -/

/-- What lookups leave alone. -/
structure Looks (ρ σ : Prompt) : Prop where
  blockSize : σ.blockSize = ρ.blockSize
  slots : σ.slots = ρ.slots
  initial : σ.initial = ρ.initial
  log : σ.log = ρ.log
  written : σ.written = ρ.written
  stored : σ.stored = ρ.stored

theorem looks_lookup (ρ : Prompt) (block : Nat) : Looks ρ (ρ.lookup block) := by
  unfold lookup
  split
  · exact ⟨rfl, rfl, rfl, rfl, rfl, rfl⟩
  · exact ⟨rfl, rfl, rfl, rfl, rfl, List.foldl_concat ..⟩

theorem looks_foldl_lookup (blocks : List Nat) : ∀ ρ : Prompt, Looks ρ (blocks.foldl lookup ρ) := by
  induction blocks with
  | nil => exact fun ρ => ⟨rfl, rfl, rfl, rfl, rfl, rfl⟩
  | cons b blocks ih =>
    intro ρ
    have hfirst := looks_lookup ρ b
    have hrest := ih (ρ.lookup b)
    exact ⟨hrest.blockSize.trans hfirst.blockSize, hrest.slots.trans hfirst.slots,
      hrest.initial.trans hfirst.initial, hrest.log.trans hfirst.log,
      hrest.written.trans hfirst.written, hrest.stored.trans hfirst.stored⟩

theorem looks_proceed (ρ : Prompt) (purpose : Purpose) : Looks ρ (ρ.proceed purpose) := by
  cases purpose with
  | flush => exact ⟨rfl, rfl, rfl, rfl, rfl, rfl⟩
  | read offset len =>
    rw [proceed]
    split
    · exact ⟨rfl, rfl, rfl, rfl, rfl, rfl⟩
    · exact looks_foldl_lookup _ ρ
  | close => exact ⟨rfl, rfl, rfl, rfl, rfl, List.foldl_concat ..⟩

/-- Blocks looked up for the first time, and none twice, are all fetched. -/
theorem foldl_lookup_of_none : ∀ (blocks : List Nat) (ρ : Prompt), blocks.Nodup →
    (∀ b ∈ blocks, ρ.cached b = none) →
    (blocks.foldl lookup ρ).hits = ρ.hits ∧ (blocks.foldl lookup ρ).misses = ρ.misses + blocks.length
  | [], ρ, _, _ => ⟨rfl, rfl⟩
  | b :: blocks, ρ, hnodup, hnone => by
    obtain ⟨hb, hnodup⟩ := List.nodup_cons.1 hnodup
    obtain ⟨hmiss, hnone⟩ := List.forall_mem_cons.1 hnone
    have hrest : ∀ b' ∈ blocks, (ρ.lookup b).cached b' = none := by
      intro b' hb'
      rw [lookup, hmiss]
      dsimp only
      split
      · exact if_neg fun heq : b' = b => hb (heq ▸ hb')
      · exact hnone b' hb'
    obtain ⟨hhits, hmisses⟩ := foldl_lookup_of_none blocks (ρ.lookup b) hnodup hrest
    rw [List.foldl_cons, hhits, hmisses, lookup, hmiss, List.length_cons]
    exact ⟨rfl, by dsimp only; omega⟩

/-! ### What calls leave -/

@[simp] theorem blockSize_settle (ρ : Prompt) : ρ.settle.blockSize = ρ.blockSize := rfl

@[simp] theorem log_settle (ρ : Prompt) : ρ.settle.log = ρ.log := rfl

/-- A call grows the log by what it brings, and changes neither the sizes nor what was there at first. -/
theorem call_frame (ρ : Prompt) (request : Request) :
    (ρ.call request).blockSize = ρ.blockSize ∧ (ρ.call request).slots = ρ.slots ∧
      (ρ.call request).initial = ρ.initial ∧ (ρ.call request).log = ρ.log ++ request.payload := by
  have hlooks := ρ.settle.looks_proceed
  have hpurpose : ∀ purpose : Purpose, (ρ.settle.proceed purpose).blockSize = ρ.blockSize ∧
      (ρ.settle.proceed purpose).slots = ρ.slots ∧
      (ρ.settle.proceed purpose).initial = ρ.initial ∧
      (ρ.settle.proceed purpose).log = ρ.log ++ [] := by
    intro purpose
    rw [List.append_nil]
    exact ⟨(hlooks purpose).blockSize, (hlooks purpose).slots, (hlooks purpose).initial,
      (hlooks purpose).log⟩
  cases request with
  | append data => exact ⟨rfl, rfl, rfl, rfl⟩
  | flush => exact hpurpose .flush
  | read offset len => exact hpurpose (.read offset len)
  | close => exact hpurpose .close

/-- So do calls one after the other. -/
theorem foldl_call_frame (requests : List Request) (ρ : Prompt) :
    (requests.foldl call ρ).blockSize = ρ.blockSize ∧ (requests.foldl call ρ).initial = ρ.initial ∧
      (requests.foldl call ρ).log = ρ.log ++ (requests.map Request.payload).flatten := by
  induction requests generalizing ρ with
  | nil => exact ⟨rfl, rfl, (List.append_nil _).symm⟩
  | cons request requests ih =>
    obtain ⟨hblockSize, -, hinitial, hlog⟩ := ρ.call_frame request
    obtain ⟨hblockSizes, hinitials, hlogs⟩ := ih (ρ.call request)
    rw [List.foldl_cons, hblockSizes, hinitials, hlogs, hblockSize, hinitial, hlog, List.append_assoc]
    exact ⟨rfl, rfl, rfl⟩

/-- Appends one after the other are one append of everything. -/
theorem foldl_append (pieces : List Bytes) (ρ : Prompt) :
    (pieces.map Request.append).foldl call ρ = ρ.append pieces.flatten := by
  induction pieces generalizing ρ with
  | nil => exact (append_nil ρ).symm
  | cons piece pieces ih =>
    rw [List.map_cons, List.foldl_cons, ih, List.flatten_cons]
    exact append_append ρ piece pieces.flatten

/-- A flush writes one block if the log does not end with one. -/
theorem written_settle (ρ : Prompt) (hpos : 0 < ρ.blockSize) : ρ.settle.written =
    ρ.written + if ρ.log.length % ρ.blockSize = 0 then 0 else 1 := by
  show ρ.written + ((ρ.log.padded ρ.blockSize).length / ρ.blockSize - _) = _
  have hsplit := Nat.div_add_mod ρ.log.length ρ.blockSize
  rw [Bytes.length_padded, Bytes.gap]
  split
  · rw [Nat.add_zero, Nat.sub_self]
  · rename_i hrest
    have hlt := Nat.mod_lt ρ.log.length hpos
    rw [show ρ.log.length + (ρ.blockSize - ρ.log.length % ρ.blockSize) =
      ρ.blockSize * (ρ.log.length / ρ.blockSize + 1) by rw [Nat.mul_succ]; omega,
      Nat.mul_div_cancel_left _ hpos, Nat.add_sub_cancel_left]

/-- Reads leave the log as it is, and each of them writes the rest of it. -/
theorem foldl_reads (ranges : List (Nat × Nat)) (ρ : Prompt) (hpos : 0 < ρ.blockSize) :
    ((ranges.map fun r => Request.read r.1 r.2).foldl call ρ).log = ρ.log ∧
      ((ranges.map fun r => Request.read r.1 r.2).foldl call ρ).written =
        ρ.written + ranges.length * if ρ.log.length % ρ.blockSize = 0 then 0 else 1 := by
  induction ranges generalizing ρ with
  | nil => simp
  | cons r ranges ih =>
    have hlooks := looks_proceed ρ.settle (.read r.1 r.2)
    have hlog : (ρ.call (.read r.1 r.2)).log = ρ.log := hlooks.log
    have hsize : (ρ.call (.read r.1 r.2)).blockSize = ρ.blockSize := hlooks.blockSize
    have hwritten : (ρ.call (.read r.1 r.2)).written = _ := hlooks.written.trans (ρ.written_settle hpos)
    obtain ⟨hlogs, hsum⟩ := ih (ρ.call (.read r.1 r.2)) (hsize ▸ hpos)
    rw [List.map_cons, List.foldl_cons, hlogs, hsum, hlog, hsize, hwritten, List.length_cons,
      Nat.succ_mul]
    exact ⟨rfl, by omega⟩

/-! ### What is on the device -/

/-- The device has a prefix of the log, up to its last whole block at least. -/
def Stores (ρ : Prompt) : Prop :=
  ∃ k, ρ.stored = Bytes.image ρ.blockSize (ρ.log.take k) ρ.initial ∧
    ρ.log.length / ρ.blockSize * ρ.blockSize ≤ k ∧ k ≤ ρ.log.length

theorem stores_start (blockSize slots : Nat) (initial : Bytes) :
    Stores { blockSize, slots, initial } :=
  ⟨0, (Bytes.image_nil initial).symm, by simp, Nat.le_refl _⟩

/-- Bytes come behind the log, and the blocks that they fill are written. -/
theorem Stores.writeOut (h : ρ.Stores) (hpos : 0 < ρ.blockSize) (more : Bytes) :
    ∃ k, (ρ.writeOut (ρ.log ++ more)).stored =
        Bytes.image ρ.blockSize ((ρ.log ++ more).take k) ρ.initial ∧
      (ρ.log ++ more).length / ρ.blockSize * ρ.blockSize ≤ k ∧ k ≤ (ρ.log ++ more).length := by
  obtain ⟨n, hstored, hlow, hhigh⟩ := h
  have hstop : ρ.log.length / ρ.blockSize ≤ (ρ.log ++ more).length / ρ.blockSize :=
    Nat.div_le_div_right (by simp)
  obtain ⟨count, hcount⟩ := Nat.exists_eq_add_of_le hstop
  have hnext : n ≤ (ρ.log.length / ρ.blockSize + 1) * ρ.blockSize := by
    have hsplit := Nat.div_add_mod ρ.log.length ρ.blockSize
    have hlt := Nat.mod_lt ρ.log.length hpos
    rw [Nat.succ_mul, Nat.mul_comm]
    omega
  obtain ⟨k, hk, hlow', hhigh'⟩ := foldl_writes hpos (ρ.log ++ more) ρ.initial count hlow
    (by rw [List.length_append]; omega) (fun _ => hnext)
    (by rw [← hcount]; exact Nat.div_mul_le_self ..)
  rw [← hcount] at hk hlow'
  refine ⟨k, ?_, hlow', hhigh'⟩
  show (ρ.deviceCalls ++ writes _ _ _ _).foldl DeviceCall.onto ρ.initial = _
  have htake : (ρ.log ++ more).take n = ρ.log.take n := List.take_append_of_le_length hhigh
  rw [List.foldl_append, show ρ.deviceCalls.foldl DeviceCall.onto ρ.initial = _ from hstored, ← htake,
    hk]

/-- Behind a flush the device has an image of the whole log. -/
theorem Stores.settle (h : ρ.Stores) (hpos : 0 < ρ.blockSize) : ρ.settle.stored = ρ.contents := by
  obtain ⟨k, hstored, hlow, hhigh⟩ := h.writeOut hpos (Bytes.zeros (Bytes.gap ρ.blockSize ρ.log.length))
  have hdvd := Bytes.dvd_add_gap hpos ρ.log.length
  have hlen : (ρ.log ++ Bytes.zeros (Bytes.gap ρ.blockSize ρ.log.length)).length =
      ρ.log.length + Bytes.gap ρ.blockSize ρ.log.length := Bytes.length_padded ρ.log
  rw [hlen, Nat.div_mul_cancel hdvd] at hlow
  refine hstored.trans ?_
  rw [List.take_of_length_le (by rw [hlen]; exact hlow), contents, Bytes.image, Bytes.padded, hlen,
    Bytes.gap_eq_zero hdvd, Bytes.zeros_zero, List.append_nil]
  rfl

theorem Stores.call (h : ρ.Stores) (hpos : 0 < ρ.blockSize) (request : Request) :
    (ρ.call request).Stores := by
  have hpurpose : ∀ purpose : Purpose, (ρ.settle.proceed purpose).Stores := by
    intro purpose
    have hlooks := looks_proceed ρ.settle purpose
    refine ⟨ρ.log.length, ?_, ?_, ?_⟩
    · rw [hlooks.stored, h.settle hpos, hlooks.blockSize, hlooks.log, hlooks.initial, log_settle,
        List.take_length]
      rfl
    · rw [hlooks.blockSize, hlooks.log]
      exact Nat.div_mul_le_self ..
    · rw [hlooks.log]
      exact Nat.le_refl _
  cases request with
  | append data => exact h.writeOut hpos data
  | flush => exact hpurpose .flush
  | read offset len => exact hpurpose (.read offset len)
  | close => exact hpurpose .close

/-- After any calls a close leaves an image of the whole log on the device. -/
theorem Stores.close (requests : List Request) : ∀ {ρ : Prompt}, ρ.Stores → 0 < ρ.blockSize →
    ((requests.foldl Prompt.call ρ).call .close).stored =
      (requests.foldl Prompt.call ρ).contents := by
  induction requests with
  | nil =>
    intro ρ h hpos
    exact (looks_proceed ρ.settle .close).stored.trans (h.settle hpos)
  | cons request requests ih =>
    intro ρ h hpos
    rw [List.foldl_cons]
    exact ih (h.call hpos request) ((ρ.call_frame request).1 ▸ hpos)

/-! ### Logs of the same shape -/

/-- Two logs of the same length, with the same blocks in the cache, that have counted the same. -/
structure Alike (ρ σ : Prompt) : Prop where
  blockSize : ρ.blockSize = σ.blockSize
  slots : ρ.slots = σ.slots
  length : ρ.log.length = σ.log.length
  cached : ∀ b, (ρ.cached b).isSome = (σ.cached b).isSome
  written : ρ.written = σ.written
  hits : ρ.hits = σ.hits
  misses : ρ.misses = σ.misses

/-- Logs alike write the same blocks of data of their own. -/
theorem Alike.writeBlocks (h : Alike ρ σ) (data data' : Bytes) (first stop : Nat) :
    Alike (ρ.writeBlocks data first stop) (σ.writeBlocks data' first stop) where
  blockSize := h.blockSize
  slots := h.slots
  length := h.length
  cached b := by
    simp only [Prompt.writeBlocks]
    split
    · rfl
    · exact h.cached b
  written := by simp only [Prompt.writeBlocks, h.written]
  hits := h.hits
  misses := h.misses

theorem Alike.append (h : Alike ρ σ) {data data' : Bytes} (hlen : data.length = data'.length) :
    Alike (ρ.append data) (σ.append data') := by
  have hall : (ρ.log ++ data).length = (σ.log ++ data').length := by
    rw [List.length_append, List.length_append, h.length, hlen]
  have hblocks := h.writeBlocks (ρ.log ++ data) (σ.log ++ data') (ρ.log.length / ρ.blockSize)
    ((ρ.log ++ data).length / ρ.blockSize)
  rw [Prompt.append, Prompt.append, Prompt.writeOut, Prompt.writeOut, ← h.length, ← h.blockSize,
    ← hall]
  exact { hblocks with length := hall }

theorem Alike.settle (h : Alike ρ σ) : Alike ρ.settle σ.settle := by
  rw [Prompt.settle, Prompt.settle, Prompt.writeOut, Prompt.writeOut, Bytes.length_padded,
    Bytes.length_padded, ← h.length, ← h.blockSize]
  exact h.writeBlocks ..

theorem Alike.lookup (h : Alike ρ σ) (block : Nat) : Alike (ρ.lookup block) (σ.lookup block) := by
  have hsame := h.cached block
  cases hρ : ρ.cached block with
  | some bytes =>
    obtain ⟨bytes', hσ⟩ := Option.isSome_iff_exists.1 (hsame.symm.trans (by rw [hρ]; rfl))
    rw [Prompt.lookup, Prompt.lookup, hρ, hσ]
    exact { h with hits := congrArg (· + 1) h.hits }
  | none =>
    have hσ : σ.cached block = none := by
      rw [hρ] at hsame
      exact Option.isSome_eq_false_iff.1 hsame.symm |> Option.isNone_iff_eq_none.1
    rw [Prompt.lookup, Prompt.lookup, hρ, hσ]
    exact
      { h with
        cached := fun b => by
          dsimp only
          rw [← h.slots]
          split
          · split <;> rfl
          · exact h.cached b
        misses := congrArg (· + 1) h.misses }

theorem Alike.foldl_lookup (blocks : List Nat) : ∀ {ρ σ : Prompt}, Alike ρ σ →
    Alike (blocks.foldl Prompt.lookup ρ) (blocks.foldl Prompt.lookup σ) := by
  induction blocks with
  | nil => exact id
  | cons b blocks ih => exact fun h => ih (h.lookup b)

theorem Alike.read (h : Alike ρ σ) (offset len : Nat) :
    Alike (ρ.call (.read offset len)) (σ.call (.read offset len)) := by
  have hsettle := h.settle
  show Alike (ρ.settle.proceed (.read offset len)) (σ.settle.proceed (.read offset len))
  rw [proceed, proceed, hsettle.length]
  split
  · exact hsettle
  · rw [lookups, lookups, hsettle.blockSize]
    exact foldl_lookup _ hsettle

theorem Alike.reads (ranges : List (Nat × Nat)) : ∀ {ρ σ : Prompt}, Alike ρ σ →
    Alike ((ranges.map fun r => Request.read r.1 r.2).foldl Prompt.call ρ)
      ((ranges.map fun r => Request.read r.1 r.2).foldl Prompt.call σ) := by
  induction ranges with
  | nil => exact id
  | cons r ranges ih => exact fun h => ih (h.read r.1 r.2)

end Prompt

end BlockLog
