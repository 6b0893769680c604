import BlockLog.Cache

/-! The cache as a partial map from blocks to bytes, read through `get?`. Each operation touches one
    slot: dropping a block takes just that block out of the map, and a fill takes out whatever had
    the slot and puts its own block in, if it goes through. Told slot by slot it is the same map. -/

namespace BlockLog.Cache

/-- The block that the slot at `index` is valid for, and its bytes. -/
def held? (c : Cache) (index : Nat) : Option (Nat × Bytes) :=
  (c.slot? index).bind fun s => s.block.map fun block => (block, s.buffer)

/-- What every operation of the cache keeps: a slot is only ever valid for a block that belongs in
    it, and every buffer is a block long. -/
structure Valid (c : Cache) : Prop where
  slots_pos : 0 < c.slots.length
  homed : ∀ i s b, c.slots[i]? = some s → s.block = some b → c.placeOf b = i
  length_buffer : ∀ s ∈ c.slots, s.buffer.length = c.blockSize

variable {c : Cache}

theorem Valid.placeOf_lt (h : c.Valid) (block : Nat) : c.placeOf block < c.slots.length :=
  Nat.mod_lt _ h.slots_pos

theorem slotOf_eq (h : c.Valid) (block : Nat) :
    c.slots[c.placeOf block]? = some (c.slotOf block) := by
  have hlt := h.placeOf_lt block
  rw [slotOf, slot?, List.getElem?_eq_getElem hlt]
  rfl

theorem slotOf_mem (h : c.Valid) (block : Nat) : c.slotOf block ∈ c.slots :=
  List.mem_of_getElem? (slotOf_eq h block)

/-- What the cache has of a block is a whole block. -/
theorem length_get? (h : c.Valid) {block : Nat} {bytes : Bytes} (hg : c.get? block = some bytes) :
    bytes.length = c.blockSize := by
  unfold get? at hg
  split at hg
  · cases hg
    exact h.length_buffer _ (slotOf_mem h block)
  · cases hg

/-- A slot is valid for a block when the block belongs there and the cache has it. -/
theorem held?_eq_some_iff (h : c.Valid) {index block : Nat} {bytes : Bytes} :
    c.held? index = some (block, bytes) ↔ c.placeOf block = index ∧ c.get? block = some bytes := by
  constructor
  · intro hheld
    obtain ⟨s, hs, hb⟩ := Option.bind_eq_some_iff.1 hheld
    obtain ⟨b, hsb, hpair⟩ := Option.map_eq_some_iff.1 hb
    cases hpair
    have hplace := h.homed index s block hs hsb
    have hslot : c.slotOf block = s := by
      rw [slotOf, hplace, hs]
      rfl
    exact ⟨hplace, by rw [get?, hslot, if_pos hsb]⟩
  · rintro ⟨rfl, hg⟩
    unfold get? at hg
    split at hg
    · rename_i hb
      cases hg
      have hs : c.slot? (c.placeOf block) = some (c.slotOf block) := slotOf_eq h block
      rw [held?, hs, Option.bind_some, hb]
      rfl
    · cases hg

/-- Slot by slot a cache is what it is block by block. -/
theorem held?_eq_of_get?_eq {c' : Cache} (h : c.Valid) (h' : c'.Valid) (hlen : c.length = c'.length)
    (hget : c.get? = c'.get?) (index : Nat) : c.held? index = c'.held? index := by
  refine Option.ext fun ⟨block, bytes⟩ => ?_
  have hplace : c.placeOf block = c'.placeOf block := congrArg (block % ·) hlen
  rw [held?_eq_some_iff h, held?_eq_some_iff h', hget, hplace]

/-! ### One slot is set -/

theorem Valid.setSlot (h : c.Valid) {block : Nat} {s : Slot}
    (hs : s.block = none ∨ s.block = some block) (hl : s.buffer.length = c.blockSize) :
    (c.setSlot (c.placeOf block) s).Valid where
  slots_pos := by rw [Cache.setSlot, List.length_set]; exact h.slots_pos
  homed i s' b hi hb := by
    rw [placeOf, Cache.setSlot, List.length_set]
    rw [Cache.setSlot, List.getElem?_set] at hi
    split at hi
    · rename_i heq
      split at hi
      · cases hi
        rcases hs with hs | hs <;> rw [hs] at hb <;> cases hb
        exact heq
      · cases hi
    · exact h.homed i s' b hi hb
  length_buffer s' hs' := by
    rcases List.mem_or_eq_of_mem_set hs' with hmem | rfl
    · exact h.length_buffer s' hmem
    · exact hl

theorem placeOf_setSlot (i : Nat) (s : Slot) (block : Nat) :
    (c.setSlot i s).placeOf block = c.placeOf block := by
  rw [placeOf, setSlot, List.length_set, placeOf]

theorem slotOf_setSlot (h : c.Valid) (block other : Nat) (s : Slot) :
    (c.setSlot (c.placeOf block) s).slotOf other =
      if c.placeOf other = c.placeOf block then s else c.slotOf other := by
  rw [slotOf, placeOf_setSlot, slot?, setSlot, List.getElem?_set]
  by_cases hp : c.placeOf other = c.placeOf block
  · rw [if_pos hp.symm, if_pos (h.placeOf_lt block), if_pos hp]
    rfl
  · rw [if_neg (Ne.symm hp), if_neg hp]
    rfl

theorem get?_setSlot (h : c.Valid) (block other : Nat) (s : Slot) :
    (c.setSlot (c.placeOf block) s).get? other =
      if c.placeOf other = c.placeOf block then
        if s.block = some other then some s.buffer else none
      else c.get? other := by
  rw [get?, slotOf_setSlot h]
  split <;> rfl

/-- Of two blocks that share a slot the cache has one at most. -/
theorem get?_eq_none_of_placeOf_eq {block other : Nat} {bytes : Bytes} (hne : other ≠ block)
    (hp : c.placeOf other = c.placeOf block) (hg : c.get? block = some bytes) :
    c.get? other = none := by
  have hslot : c.slotOf other = c.slotOf block := by rw [slotOf, slotOf, hp]
  unfold get? at hg ⊢
  split at hg
  · rename_i hb
    rw [hslot, hb]
    exact if_neg fun h => hne (Option.some.inj h).symm
  · cases hg

/-- Of the blocks that share a slot with one that the cache has, it has no other. -/
theorem isSome_get?_of_hit {block other : Nat} {bytes : Bytes} (hit : c.get? block = some bytes)
    (hp : c.placeOf other = c.placeOf block) : (c.get? other).isSome = decide (other = block) := by
  by_cases heq : other = block
  · subst heq
    rw [hit, decide_eq_true rfl]
    rfl
  · rw [get?_eq_none_of_placeOf_eq heq hp hit, decide_eq_false heq]
    rfl

/-! ### Dropping a block -/

/-- Dropping a block drops it, and nothing else. -/
theorem get?_evict (h : c.Valid) (block other : Nat) :
    (c.evict block).1.get? other = if other = block then none else c.get? other := by
  unfold evict
  split
  · rename_i hb
    have hhit : c.get? block = some (c.slotOf block).buffer := if_pos hb
    rw [get?_setSlot h]
    by_cases hp : c.placeOf other = c.placeOf block
    · rw [if_pos hp, if_neg (by simp)]
      split
      · rfl
      · exact (get?_eq_none_of_placeOf_eq ‹_› hp hhit).symm
    · rw [if_neg hp, if_neg fun he => hp (congrArg c.placeOf he)]
  · rename_i hb
    split
    · rename_i he
      rw [he]
      exact if_neg hb
    · rfl

theorem Valid.evict (h : c.Valid) (block : Nat) : (c.evict block).1.Valid := by
  unfold Cache.evict
  split
  · refine h.setSlot (.inl rfl) ?_
    exact h.length_buffer (c.slotOf block) (slotOf_mem h block)
  · exact h

@[simp] theorem evict_blockSize (c : Cache) (block : Nat) :
    (c.evict block).1.blockSize = c.blockSize := by
  unfold evict
  split <;> rfl

@[simp] theorem length_evict (c : Cache) (block : Nat) : (c.evict block).1.length = c.length := by
  unfold evict
  split
  · exact List.length_set
  · rfl

/-! ### Filling a slot -/

section

variable {ε : Type} (block : Nat) (buffer : Bytes)

/-- A fill that goes through leaves its own block in the slot and every other slot as it was. -/
theorem get?_install_ok (h : c.Valid) (other : Nat) :
    (c.install block buffer (.ok () : Except ε Unit)).1.get? other =
      if c.placeOf other = c.placeOf block then if other = block then some buffer else none
      else c.get? other := by
  show (c.setSlot (c.placeOf block) _).get? other = _
  rw [get?_setSlot h]
  simp only [Option.some.injEq, eq_comm]

/-- A fill that fails leaves nothing in the slot. -/
theorem get?_install_error (h : c.Valid) (e : ε) (other : Nat) :
    (c.install block buffer (.error e)).1.get? other =
      if c.placeOf other = c.placeOf block then none else c.get? other := by
  show (c.setSlot (c.placeOf block) _).get? other = _
  rw [get?_setSlot h]
  simp

/-- What a fill leaves in the cache, whether it goes through or not. -/
theorem isSome_get?_install (h : c.Valid) (outcome : Except ε Unit) (other : Nat) :
    ((c.install block buffer outcome).1.get? other).isSome =
      if c.placeOf other = c.placeOf block then decide (other = block) && outcome.isOk
      else (c.get? other).isSome := by
  cases outcome with
  | ok _ =>
    rw [get?_install_ok block buffer h]
    split
    · split <;> simp [Except.isOk, Except.toBool, *]
    · rfl
  | error e =>
    rw [get?_install_error block buffer h]
    split
    · simp [Except.isOk, Except.toBool]
    · rfl

theorem Valid.install (h : c.Valid) (hl : buffer.length = c.blockSize) (outcome : Except ε Unit) :
    (c.install block buffer outcome).1.Valid := by
  cases outcome with
  | ok _ => exact h.setSlot (.inr rfl) hl
  | error _ => exact h.setSlot (.inl rfl) hl

@[simp] theorem install_blockSize (c : Cache) (outcome : Except ε Unit) :
    (c.install block buffer outcome).1.blockSize = c.blockSize := by
  cases outcome <;> rfl

@[simp] theorem length_install (c : Cache) (outcome : Except ε Unit) :
    (c.install block buffer outcome).1.length = c.length := by
  cases outcome <;> exact List.length_set

end

/-! ### A slot without a block -/

/-- The slot that `block` belongs in is there, and valid for no block. -/
def Vacant (c : Cache) (block : Nat) : Prop :=
  ∃ s, c.slot? (c.placeOf block) = some s ∧ s.isValid = false

theorem slot?_setSlot_of_ne {i j : Nat} (h : j ≠ i) (s : Slot) : (c.setSlot i s).slot? j = c.slot? j :=
  List.getElem?_set_ne h.symm

/-- A fill that fails leaves the slot without a block, and every other slot as it was. -/
theorem vacant_install_error {ε : Type} (h : c.Valid) (block : Nat) (buffer : Bytes) (e : ε) :
    (c.install block buffer (.error e)).1.Vacant block ∧
      ∀ i, i ≠ c.placeOf block → (c.install block buffer (.error e)).1.slot? i = c.slot? i := by
  refine ⟨⟨{ block := none, buffer := buffer }, ?_, rfl⟩, fun i hi => slot?_setSlot_of_ne hi _⟩
  show (c.setSlot (c.placeOf block) _).slot? ((c.setSlot (c.placeOf block) _).placeOf block) = _
  rw [placeOf_setSlot]
  exact List.getElem?_set_self (h.placeOf_lt block)

theorem Vacant.evict {block : Nat} (h : c.Vacant block) (other : Nat) :
    (c.evict other).1.Vacant block := by
  obtain ⟨s, hs, hnone⟩ := h
  unfold Cache.evict
  split
  · rename_i hheld
    refine ⟨s, ?_, hnone⟩
    show (c.setSlot (c.placeOf other) _).slot? ((c.setSlot (c.placeOf other) _).placeOf block) = _
    rw [placeOf_setSlot]
    by_cases hplace : c.placeOf block = c.placeOf other
    · rw [slotOf, ← hplace, hs, Option.getD_some] at hheld
      rw [Slot.isValid, hheld] at hnone
      cases hnone
    · rw [slot?_setSlot_of_ne hplace, hs]
  · exact ⟨s, hs, hnone⟩

/-! ### A cache that has just been made -/

/-- A cache of nothing but invalid slots with zeroed buffers. -/
def blank (slots blockSize : Nat) : Cache where
  slots := List.replicate slots { block := none, buffer := (Store.zeros blockSize).toList }
  blockSize := blockSize

theorem valid_blank {slots : Nat} (hpos : 0 < slots) (blockSize : Nat) :
    (blank slots blockSize).Valid where
  slots_pos := by
    rw [blank, List.length_replicate]
    exact hpos
  homed := by
    intro i s b hi hb
    rw [List.eq_of_mem_replicate (List.mem_of_getElem? hi)] at hb
    cases hb
  length_buffer := by
    intro s hs
    rw [List.eq_of_mem_replicate hs, Store.toList_zeros]
    exact Bytes.length_zeros _

/-- A cache can be made of any number of slots, as long as their table and a buffer can be asked for, and
    memory can have the table and all buffers at once. It is blank then. -/
theorem new_eq_ok_iff (slots blockSize : Nat) : new slots blockSize = .ok c ↔
    (0 < slots ∧ slots * slotOverhead ≤ allocationLimit ∧ blockSize + blockSize ≤ allocationLimit ∧
      footprint slots blockSize ≤ countLimit) ∧ c = blank slots blockSize := by
  unfold new Region.allocate
  by_cases hz : slots = 0
  · simp [hz]
  · by_cases htable : allocationLimit < slots * slotOverhead
    · simp [hz, htable, Nat.not_le.2 htable]
    · by_cases hbuffer : allocationLimit < blockSize + blockSize
      · simp [hz, htable, hbuffer, Nat.not_le.2 hbuffer]
      · by_cases hall : countLimit < footprint slots blockSize
        · simp [hz, htable, hbuffer, hall, Nat.not_le.2 hall]
        · simp [hz, htable, hbuffer, hall, Nat.not_lt.1 htable, Nat.not_lt.1 hbuffer,
            Nat.not_lt.1 hall, Nat.pos_of_ne_zero hz, blank, eq_comm]

/-- A new cache holds nothing. -/
theorem new_eq_ok {slots blockSize : Nat} (h : new slots blockSize = .ok c) :
    c.Valid ∧ c.blockSize = blockSize ∧ c.slots.length = slots ∧ ∀ block, c.get? block = none := by
  obtain ⟨⟨hpos, -⟩, rfl⟩ := (new_eq_ok_iff ..).1 h
  have hv := valid_blank hpos blockSize
  refine ⟨hv, rfl, List.length_replicate, fun block => if_neg ?_⟩
  rw [List.eq_of_mem_replicate (slotOf_mem hv block)]
  simp

theorem new_isOk_iff (slots blockSize : Nat) : (∃ c, new slots blockSize = .ok c) ↔
    0 < slots ∧ slots * slotOverhead ≤ allocationLimit ∧ blockSize + blockSize ≤ allocationLimit ∧
      footprint slots blockSize ≤ countLimit := by
  simp only [new_eq_ok_iff, exists_and_left, exists_eq, and_true]

end BlockLog.Cache
