import BlockLog.Proofs.Image
import BlockLog.Ring
import Mathlib.Data.List.Rotate
import Mathlib.Data.Nat.ModEq

/-! The ring as a queue of bytes. Read once around from `tail` on, the storage is a window whose first
    `filled` bytes are the queue and whose last block is the one popped last, until it is pushed
    over. Pushing appends to the queue, byte for byte; popping takes a block off its front; taking a
    block back puts the last popped one there again.

        window:  ┌──────────────────────┬───────────────────────┬───────────────┐
                 │        queue         │         free          │  last popped  │
                 └──────────────────────┴───────────────────────┴───────────────┘
                 ▲ tail                 ▲ head                                  ▲ tail again -/

namespace BlockLog.Ring

/-- What every operation of the ring keeps. -/
structure Valid (r : Ring) : Prop where
  blockSize_pos : 0 < r.blockSize
  size_storage : r.storage.size = r.capacity
  tail_lt : r.tail < r.capacity
  tail_aligned : r.blockSize ∣ r.tail
  filled_le : r.filled ≤ r.capacity
  head_eq : r.head = (r.tail + r.filled) % r.capacity
  offset_aligned : r.blockSize ∣ r.tailOffset

/-- The storage, read once around from the oldest byte on. -/
def window (r : Ring) : Bytes := r.storage.toList.rotate r.tail

/-- The buffered bytes, oldest first. -/
def queue (r : Ring) : Bytes := r.window.take r.filled

/-- The block in front of the window: the one popped last, if nothing has been pushed over it. -/
def lastPopped (r : Ring) : Bytes := r.window.drop (r.capacity - r.blockSize)

/-- Store one byte at the head. -/
def pushByte (r : Ring) (b : UInt8) : Ring :=
  { r with
    storage := r.storage.overwrite r.head [b]
    head := (r.head + 1) % r.capacity
    filled := r.filled + 1 }

section

variable (r : Ring) (b : UInt8)

@[simp] theorem pushByte_storage : (r.pushByte b).storage = r.storage.overwrite r.head [b] := rfl

@[simp] theorem pushByte_head : (r.pushByte b).head = (r.head + 1) % r.capacity := rfl

@[simp] theorem pushByte_filled : (r.pushByte b).filled = r.filled + 1 := rfl

@[simp] theorem pushByte_tail : (r.pushByte b).tail = r.tail := rfl

@[simp] theorem pushByte_capacity : (r.pushByte b).capacity = r.capacity := by
  simp only [capacity, pushByte]

end

/-- The ring, said to hold `n` bytes. -/
def withFilled (r : Ring) (n : Nat) : Ring := { r with filled := n }

variable {r : Ring}

/-! ### Sizes -/

theorem blockSize_dvd_capacity (r : Ring) : r.blockSize ∣ r.capacity := Nat.dvd_mul_right ..

namespace Valid

theorem blockSize_le_capacity (h : r.Valid) : r.blockSize ≤ r.capacity :=
  Nat.le_of_dvd (Nat.lt_of_le_of_lt (Nat.zero_le _) h.tail_lt) r.blockSize_dvd_capacity

/-- A block at the tail never wraps. -/
theorem tail_add_le (h : r.Valid) : r.tail + r.blockSize ≤ r.capacity :=
  add_le_of_dvd_of_lt h.tail_aligned r.blockSize_dvd_capacity h.tail_lt

theorem head_lt (h : r.Valid) : r.head < r.capacity := by
  rw [h.head_eq]
  exact Nat.mod_lt _ (Nat.lt_of_le_of_lt (Nat.zero_le _) h.tail_lt)

theorem length_window (h : r.Valid) : r.window.length = r.capacity := by
  rw [window, List.length_rotate, Store.length_toList, h.size_storage]

theorem length_queue (h : r.Valid) : r.queue.length = r.filled := by
  rw [queue, List.length_take, h.length_window, Nat.min_eq_left h.filled_le]

end Valid

/-! ### Popping and taking back -/

theorem oldest_eq (h : r.Valid) : r.oldest = r.window.take r.blockSize := by
  have hl : r.storage.toList.length = r.capacity := h.size_storage
  have hb := h.tail_add_le
  rw [oldest, Store.slice_eq, Bytes.slice, window,
    List.rotate_eq_drop_append_take (by rw [hl]; exact Nat.le_of_lt h.tail_lt),
    List.take_append_of_le_length (by rw [List.length_drop, hl]; omega)]

/-- The oldest block is the front of the queue. -/
theorem oldest_eq_take_queue (h : r.Valid) (hf : r.blockSize ≤ r.filled) :
    r.oldest = r.queue.take r.blockSize := by
  rw [oldest_eq h, queue, List.take_take, Nat.min_eq_left hf]

/-- What comes in behind a whole block leaves that block the oldest. -/
theorem oldest_eq_of_append {r' : Ring} {more : Bytes} (h : r.Valid) (h' : r'.Valid)
    (hb : r'.blockSize = r.blockSize) (hf : r.blockSize ≤ r.filled)
    (hq : r'.queue = r.queue ++ more) : r.blockSize ≤ r'.filled ∧ r'.oldest = r.oldest := by
  have hfilled : r.blockSize ≤ r'.filled := by
    rw [← h'.length_queue, hq, List.length_append, h.length_queue]
    omega
  refine ⟨hfilled, ?_⟩
  rw [oldest_eq_take_queue h' (by omega), oldest_eq_take_queue h hf, hq, hb,
    List.take_append_of_le_length (by rw [h.length_queue]; exact hf)]

theorem length_oldest (h : r.Valid) : r.oldest.length = r.blockSize := by
  rw [oldest_eq h, List.length_take, h.length_window, Nat.min_eq_left h.blockSize_le_capacity]

theorem Valid.dropOldest (h : r.Valid) (hf : r.blockSize ≤ r.filled) : r.dropOldest.Valid where
  blockSize_pos := h.blockSize_pos
  size_storage := h.size_storage
  tail_lt := Nat.mod_lt _ (Nat.lt_of_le_of_lt (Nat.zero_le _) h.tail_lt)
  tail_aligned := (Nat.dvd_mod_iff r.blockSize_dvd_capacity).2
    (Nat.dvd_add h.tail_aligned (Nat.dvd_refl _))
  filled_le := Nat.le_trans (Nat.sub_le ..) h.filled_le
  head_eq := by
    show r.head = ((r.tail + r.blockSize) % r.capacity + (r.filled - r.blockSize)) % r.capacity
    rw [h.head_eq, Nat.mod_add_mod]
    congr 1
    omega
  offset_aligned := Nat.dvd_add h.offset_aligned (Nat.dvd_refl _)

/-- A pop turns the window by a block. -/
theorem window_dropOldest (h : r.Valid) :
    r.dropOldest.window = r.window.drop r.blockSize ++ r.window.take r.blockSize := by
  have hl : r.storage.toList.length = r.capacity := h.size_storage
  show r.storage.toList.rotate ((r.tail + r.blockSize) % r.capacity) = _
  rw [← hl, List.rotate_mod, ← List.rotate_rotate, ← window, List.rotate_eq_drop_append_take]
  rw [h.length_window]
  exact h.blockSize_le_capacity

theorem queue_dropOldest (h : r.Valid) (hf : r.blockSize ≤ r.filled) :
    r.dropOldest.queue = r.queue.drop r.blockSize := by
  have hle := h.filled_le
  rw [queue, window_dropOldest h, queue, List.drop_take]
  exact List.take_append_of_le_length (by
    rw [List.length_drop, h.length_window]
    show r.filled - r.blockSize ≤ _
    omega)

/-- The popped block stays in front of the window. -/
theorem lastPopped_dropOldest (h : r.Valid) : r.dropOldest.lastPopped = r.oldest := by
  have hb := h.blockSize_le_capacity
  show r.dropOldest.window.drop (r.capacity - r.blockSize) = _
  rw [window_dropOldest h, oldest_eq h,
    List.drop_left' (by rw [List.length_drop, h.length_window])]

theorem Valid.takeBack (h : r.Valid) {pad : Nat} (hf : r.filled = 0)
    (hb : pad < r.blockSize) : (r.takeBack pad).Valid := by
  have hc := h.blockSize_le_capacity
  exact
    { blockSize_pos := h.blockSize_pos
      size_storage := h.size_storage
      tail_lt := Nat.mod_lt _ (Nat.lt_of_le_of_lt (Nat.zero_le _) h.tail_lt)
      tail_aligned := (Nat.dvd_mod_iff r.blockSize_dvd_capacity).2
        (Nat.dvd_sub (Nat.dvd_add h.tail_aligned r.blockSize_dvd_capacity) (Nat.dvd_refl _))
      filled_le := Nat.le_trans (Nat.sub_le ..) hc
      head_eq := by
        show (r.head + r.capacity - pad) % r.capacity =
          ((r.tail + r.capacity - r.blockSize) % r.capacity + (r.blockSize - pad)) % r.capacity
        rw [h.head_eq, hf, Nat.add_zero, Nat.mod_eq_of_lt h.tail_lt, Nat.mod_add_mod]
        congr 1
        omega
      offset_aligned := Nat.dvd_sub h.offset_aligned (Nat.dvd_refl _) }

/-- Taking back turns the window back by a block. -/
theorem window_takeBack (h : r.Valid) (pad : Nat) :
    (r.takeBack pad).window = r.lastPopped ++ r.window.take (r.capacity - r.blockSize) := by
  have hl : r.storage.toList.length = r.capacity := h.size_storage
  have hb := h.blockSize_le_capacity
  show r.storage.toList.rotate ((r.tail + r.capacity - r.blockSize) % r.capacity) = _
  rw [← hl, List.rotate_mod, hl, Nat.add_sub_assoc hb, ← List.rotate_rotate, ← window,
    List.rotate_eq_drop_append_take]
  · rfl
  · rw [h.length_window]
    exact Nat.sub_le ..

theorem queue_takeBack (h : r.Valid) (pad : Nat) :
    (r.takeBack pad).queue = r.lastPopped.take (r.blockSize - pad) := by
  have hb := h.blockSize_le_capacity
  rw [queue, window_takeBack h]
  exact List.take_append_of_le_length (by
    rw [lastPopped, List.length_drop, h.length_window]
    show r.blockSize - pad ≤ _
    omega)

/-! ### Pushing byte by byte -/

theorem Valid.pushByte (h : r.Valid) (hf : r.filled < r.capacity) (b : UInt8) :
    (r.pushByte b).Valid where
  blockSize_pos := h.blockSize_pos
  size_storage := by
    have hh := h.head_lt
    have hs := h.size_storage
    rw [pushByte_storage, pushByte_capacity, Store.size_overwrite, List.length_singleton]
    omega
  tail_lt := h.tail_lt
  tail_aligned := h.tail_aligned
  filled_le := hf
  head_eq := by
    rw [pushByte_head, pushByte_tail, pushByte_filled, pushByte_capacity, h.head_eq,
      Nat.mod_add_mod, Nat.add_assoc]
  offset_aligned := h.offset_aligned

/-- Different counts from one position, none of them all around, lead to different positions. -/
theorem eq_of_add_mod_eq {a i k n : Nat} (hi : i < n) (hk : k < n) (h : (a + i) % n = (a + k) % n) :
    i = k :=
  Nat.ModEq.eq_of_lt_of_lt (Nat.ModEq.add_left_cancel' a h) hi hk

/-- A byte that is pushed lands in the window behind the queue. -/
theorem getElem?_window_pushByte (h : r.Valid) (hf : r.filled < r.capacity) (b : UInt8) {i : Nat}
    (hi : i < r.capacity) :
    (r.pushByte b).window[i]? = if i = r.filled then some b else r.window[i]? := by
  have hl : r.storage.toList.length = r.capacity := h.size_storage
  have hl' : (r.pushByte b).storage.toList.length = r.capacity :=
    (h.pushByte hf b).size_storage.trans (r.pushByte_capacity b)
  rw [window, window, List.getElem?_rotate (by rw [hl']; exact hi),
    List.getElem?_rotate (by rw [hl]; exact hi), hl', hl, pushByte_storage, pushByte_tail]
  have heq : (i + r.tail) % r.capacity = r.head ↔ i = r.filled := by
    rw [h.head_eq, Nat.add_comm]
    exact ⟨eq_of_add_mod_eq hi hf, fun hif => by rw [hif]⟩
  have hlt := h.head_lt
  rw [Store.toList_overwrite, Bytes.getElem?_overwrite _ (by rw [hl]; omega), List.length_singleton]
  by_cases hif : i = r.filled
  · rw [if_pos hif, heq.2 hif, if_pos (by omega), Nat.sub_self]
    rfl
  · have := mt heq.1 hif
    rw [if_neg hif, if_neg (by omega)]

theorem queue_pushByte (h : r.Valid) (hf : r.filled < r.capacity) (b : UInt8) :
    (r.pushByte b).queue = r.queue ++ [b] := by
  apply List.ext_getElem?
  intro i
  rw [queue, pushByte_filled, List.getElem?_take, List.getElem?_append, h.length_queue]
  by_cases hi : i < r.filled
  · rw [if_pos (by omega), if_pos hi, getElem?_window_pushByte h hf b (by omega), if_neg (by omega),
      queue, List.getElem?_take_of_lt hi]
  · rw [if_neg hi]
    by_cases he : i = r.filled
    · rw [if_pos (by omega), getElem?_window_pushByte h hf b (by omega), if_pos he, he,
        Nat.sub_self]
      rfl
    · rw [if_neg (by omega), List.getElem?_eq_none (by rw [List.length_singleton]; omega)]

/-- Several bytes, pushed one at a time. -/
theorem foldl_pushByte : ∀ {r : Ring} (bytes : Bytes), r.Valid → r.filled + bytes.length ≤ r.capacity →
    (bytes.foldl pushByte r).Valid ∧ (bytes.foldl pushByte r).queue = r.queue ++ bytes
  | _, [], h, _ => ⟨h, (List.append_nil _).symm⟩
  | r, b :: bs, h, hf => by
    rw [List.length_cons] at hf
    obtain ⟨hv, hq⟩ := foldl_pushByte bs (h.pushByte (by omega) b)
      (by rw [pushByte_filled, pushByte_capacity]; omega)
    refine ⟨hv, ?_⟩
    rw [List.foldl_cons, hq, queue_pushByte h (by omega), List.append_assoc]
    rfl

/-! ### Pushing span by span -/

/-- Bytes that fit before the end of the storage are stored one at a time as all at once. -/
theorem foldl_pushByte_of_le : ∀ {r : Ring} (bytes : Bytes), r.storage.size = r.capacity →
    r.head < r.capacity → r.head + bytes.length ≤ r.capacity →
    bytes.foldl pushByte r =
      { r with
        storage := r.storage.overwrite r.head bytes
        head := (r.head + bytes.length) % r.capacity
        filled := r.filled + bytes.length }
  | r, [], hs, hh, _ => by
    simp [Store.overwrite_nil (show r.head ≤ r.storage.size by omega), Nat.mod_eq_of_lt hh]
  | r, [b], _, _, _ => rfl
  | r, b :: c :: bs, hs, hh, hl => by
    simp only [List.length_cons] at hl
    have hhead : (r.pushByte b).head = r.head + 1 := by
      rw [pushByte_head, Nat.mod_eq_of_lt (by omega)]
    have hsize : (r.pushByte b).storage.size = (r.pushByte b).capacity := by
      rw [pushByte_storage, pushByte_capacity, Store.size_overwrite, hs, List.length_singleton]
      omega
    have hst : (r.storage.overwrite r.head [b]).overwrite (r.head + 1) (c :: bs) =
        r.storage.overwrite r.head (b :: c :: bs) :=
      Store.overwrite_overwrite r.storage r.head [b] (c :: bs)
    rw [List.foldl_cons, foldl_pushByte_of_le (c :: bs) hsize
      (by rw [hhead, pushByte_capacity]; omega)
      (by rw [hhead, pushByte_capacity, List.length_cons]; omega), hhead, pushByte_storage, hst,
      pushByte_filled, pushByte_capacity, Nat.add_assoc r.head, Nat.add_assoc r.filled,
      Nat.add_comm 1]
    rfl

/-- How much is buffered plays no part in copying spans. -/
theorem copySpans_withFilled (spans n : Nat) : ∀ (r : Ring) (bytes : Bytes),
    copySpans spans (r.withFilled n) bytes = (copySpans spans r bytes).withFilled n := by
  induction spans with
  | zero => exact fun _ _ => rfl
  | succ spans ih =>
    intro r bytes
    cases bytes with
    | nil => rfl
    | cons b bs =>
      let span := min (r.capacity - r.head) (b :: bs).length
      exact ih
        { r with
          storage := r.storage.overwrite r.head ((b :: bs).take span)
          head := (r.head + span) % r.capacity }
        ((b :: bs).drop span)

/-- Copying spans stores the same bytes in the same places as storing them one at a time. -/
theorem copySpans_eq_foldl (spans : Nat) : ∀ (r : Ring) (bytes : Bytes),
    r.storage.size = r.capacity → r.head < r.capacity → bytes.length ≤ spans →
    (copySpans spans r bytes).withFilled (r.filled + bytes.length) = bytes.foldl pushByte r := by
  induction spans with
  | zero =>
    intro r bytes _ _ hl
    rw [List.length_eq_zero_iff.1 (Nat.le_zero.1 hl)]
    rfl
  | succ spans ih =>
    intro r bytes hs hh hl
    cases bytes with
    | nil => rfl
    | cons b bs =>
      rw [copySpans]
      generalize hspan : min (r.capacity - r.head) (b :: bs).length = span
      rw [List.length_cons] at hspan hl
      -- one span, and then the rest from its end on
      have htake : ((b :: bs).take span).length = span := by
        rw [List.length_take, List.length_cons]
        omega
      have hfirst := foldl_pushByte_of_le ((b :: bs).take span) hs hh (by omega)
      rw [htake] at hfirst
      set stored : Ring :=
        { r with
          storage := r.storage.overwrite r.head ((b :: bs).take span)
          head := (r.head + span) % r.capacity } with hstored
      have hrest := ih (stored.withFilled (r.filled + span)) ((b :: bs).drop span)
        (by
          show (r.storage.overwrite r.head _).size = r.capacity
          rw [Store.size_overwrite, hs, htake]
          omega)
        (Nat.mod_lt _ (Nat.lt_of_le_of_lt (Nat.zero_le _) hh))
        (by rw [List.length_drop, List.length_cons]; omega)
      have hlen : r.filled + span + ((b :: bs).drop span).length = r.filled + (b :: bs).length := by
        rw [List.length_drop, List.length_cons]
        omega
      calc (copySpans spans stored ((b :: bs).drop span)).withFilled (r.filled + (b :: bs).length)
          = ((b :: bs).drop span).foldl pushByte (stored.withFilled (r.filled + span)) := by
            rw [← hrest, copySpans_withFilled, ← hlen]
            rfl
        _ = (b :: bs).foldl pushByte r := by
            conv_rhs => rw [← List.take_append_drop span (b :: bs), List.foldl_append, hfirst]
            rfl

/-- A push takes the first bytes, as many as there is room for. -/
theorem take_push_snd (r : Ring) (bytes : Bytes) :
    bytes.take (r.push bytes).2 = bytes.take r.free := by
  rw [push, Nat.min_comm, ← List.take_eq_take_min]

/-- Pushing takes as many bytes as there is room for, one after the other. -/
theorem push_eq_foldl (h : r.Valid) (bytes : Bytes) :
    (r.push bytes).1 = (bytes.take r.free).foldl pushByte r := by
  have hlen : (bytes.take r.free).length = min bytes.length r.free := by
    rw [List.length_take, Nat.min_comm]
  have hfilled : (copySpans (min bytes.length r.free) r (bytes.take r.free)).filled = r.filled :=
    (congrArg filled (copySpans_withFilled _ r.filled r _)).trans rfl
  have hcopy := copySpans_eq_foldl (min bytes.length r.free) r (bytes.take r.free) h.size_storage
    h.head_lt (Nat.le_of_eq hlen)
  rw [← hcopy, hlen, ← hfilled, ← take_push_snd]
  rfl

theorem length_take_free_le (h : r.Valid) (bytes : Bytes) :
    r.filled + (bytes.take r.free).length ≤ r.capacity := by
  have := h.filled_le
  rw [List.length_take, free]
  omega

theorem Valid.push (h : r.Valid) (bytes : Bytes) : (r.push bytes).1.Valid := by
  rw [push_eq_foldl h]
  exact (foldl_pushByte _ h (length_take_free_le h bytes)).1

/-- A push appends to the queue. -/
theorem queue_push (h : r.Valid) (bytes : Bytes) :
    (r.push bytes).1.queue = r.queue ++ bytes.take r.free := by
  rw [push_eq_foldl h]
  exact (foldl_pushByte _ h (length_take_free_le h bytes)).2

/-- Storing bytes one at a time moves neither the tail nor the offset that belongs to it. -/
theorem foldl_pushByte_frame : ∀ (r : Ring) (bytes : Bytes),
    (bytes.foldl pushByte r).blockSize = r.blockSize ∧ (bytes.foldl pushByte r).blocks = r.blocks ∧
    (bytes.foldl pushByte r).tailOffset = r.tailOffset ∧
    (bytes.foldl pushByte r).filled = r.filled + bytes.length
  | _, [] => ⟨rfl, rfl, rfl, rfl⟩
  | r, b :: bs => by
    obtain ⟨hbs, hbl, ho, hf⟩ := foldl_pushByte_frame (r.pushByte b) bs
    refine ⟨hbs, hbl, ho, ?_⟩
    rw [List.foldl_cons, hf, pushByte_filled, List.length_cons]
    omega

/-- What is pushed goes in at the head. -/
theorem foldl_pushByte_tail : ∀ (r : Ring) (bytes : Bytes), (bytes.foldl pushByte r).tail = r.tail
  | _, [] => rfl
  | r, b :: bs => foldl_pushByte_tail (r.pushByte b) bs

section

variable (h : r.Valid) (bytes : Bytes)
include h

theorem push_blockSize : (r.push bytes).1.blockSize = r.blockSize := by
  rw [push_eq_foldl h]
  exact (foldl_pushByte_frame r _).1

theorem push_capacity : (r.push bytes).1.capacity = r.capacity := by
  rw [push_eq_foldl h, capacity, (foldl_pushByte_frame r _).1, (foldl_pushByte_frame r _).2.1]
  rfl

theorem push_tailOffset : (r.push bytes).1.tailOffset = r.tailOffset := by
  rw [push_eq_foldl h]
  exact (foldl_pushByte_frame r _).2.2.1

theorem push_tail : (r.push bytes).1.tail = r.tail := by
  rw [push_eq_foldl h, foldl_pushByte_tail]

theorem push_filled : (r.push bytes).1.filled = r.filled + (bytes.take r.free).length := by
  rw [push_eq_foldl h]
  exact (foldl_pushByte_frame r _).2.2.2

end

/-! ### Filling up -/

theorem padding_eq_gap (r : Ring) : r.padding = Bytes.gap r.blockSize r.filled := rfl

/-- The zeros that complete the last block never wrap, and there is always room for them. -/
theorem filled_add_padding_le (h : r.Valid) : r.filled + r.padding ≤ r.capacity :=
  Bytes.add_gap_le h.blockSize_pos r.blockSize_dvd_capacity h.filled_le

theorem head_add_padding_le (h : r.Valid) : r.head + r.padding ≤ r.capacity := by
  have hpos := h.blockSize_pos
  have hdvd : r.blockSize ∣ r.head + r.padding := by
    rw [h.head_eq, padding_eq_gap]
    have hall : r.blockSize ∣ (r.tail + r.filled) + Bytes.gap r.blockSize r.filled := by
      rw [Nat.add_assoc]
      exact Nat.dvd_add h.tail_aligned (Bytes.dvd_add_gap hpos _)
    have hsplit := Nat.div_add_mod (r.tail + r.filled) r.capacity
    rw [← hsplit, Nat.add_assoc] at hall
    exact (Nat.dvd_add_right (Nat.dvd_trans r.blockSize_dvd_capacity (Nat.dvd_mul_right ..))).1 hall
  have hlt : r.padding < r.blockSize := Bytes.gap_lt hpos _
  have hh := h.head_lt
  rcases Nat.lt_or_ge r.capacity (r.head + r.padding) with hgt | hle
  · have := add_le_of_dvd_of_lt r.blockSize_dvd_capacity hdvd hgt
    omega
  · exact hle

/-- Filling up is pushing zeros. -/
theorem fillUp_eq_foldl (h : r.Valid) :
    r.fillUp = ((Bytes.zeros r.padding).foldl pushByte r, r.padding) := by
  unfold fillUp
  split
  · rename_i hz
    rw [hz]
    rfl
  · rw [foldl_pushByte_of_le _ h.size_storage h.head_lt
      (by rw [Bytes.length_zeros]; exact head_add_padding_le h), Bytes.length_zeros]

theorem Valid.fillUp (h : r.Valid) : r.fillUp.1.Valid := by
  rw [fillUp_eq_foldl h]
  exact (foldl_pushByte _ h (by rw [Bytes.length_zeros]; exact filled_add_padding_le h)).1

theorem queue_fillUp (h : r.Valid) : r.fillUp.1.queue = r.queue ++ Bytes.zeros r.padding := by
  rw [fillUp_eq_foldl h]
  exact (foldl_pushByte _ h (by rw [Bytes.length_zeros]; exact filled_add_padding_le h)).2

section

variable (r)

@[simp] theorem fillUp_snd : r.fillUp.2 = r.padding := by
  unfold fillUp
  split
  · rename_i hz
    exact hz.symm
  · rfl

@[simp] theorem fillUp_blockSize : r.fillUp.1.blockSize = r.blockSize := by
  unfold fillUp
  split <;> rfl

@[simp] theorem fillUp_capacity : r.fillUp.1.capacity = r.capacity := by
  unfold fillUp
  split <;> rfl

@[simp] theorem fillUp_tail : r.fillUp.1.tail = r.tail := by
  unfold fillUp
  split <;> rfl

@[simp] theorem fillUp_tailOffset : r.fillUp.1.tailOffset = r.tailOffset := by
  unfold fillUp
  split <;> rfl

@[simp] theorem fillUp_filled : r.fillUp.1.filled = r.filled + r.padding := by
  unfold fillUp
  split
  · rename_i hz
    rw [hz]
    rfl
  · rfl

end

/-! ### A ring that has just been made -/

/-- A new ring is empty, and has the size that was asked for. -/
theorem new_eq_ok {blockSize blocks : Nat} (h : new blockSize blocks = .ok r) :
    r.Valid ∧ r.blockSize = blockSize ∧ r.filled = 0 ∧ r.tailOffset = 0 ∧
      r.capacity = blockSize * blocks := by
  unfold new at h
  split at h
  · cases h
  · rename_i hpos
    split at h
    · cases h
    · unfold Region.allocate at h
      split at h
      · rename_i hr
        split at hr <;> cases hr
        cases h
      · rename_i region hr
        split at hr <;> cases hr
        cases h
        have hcap : 0 < blockSize * blocks := Nat.mul_pos (by omega) (by omega)
        refine ⟨?_, rfl, rfl, rfl, rfl⟩
        exact
          { blockSize_pos := by show 0 < blockSize; omega
            size_storage := by
              rw [← Store.length_toList, Store.toList_zeros, Bytes.length_zeros]
              rfl
            tail_lt := hcap
            tail_aligned := Nat.dvd_zero _
            filled_le := Nat.zero_le _
            head_eq := (Nat.zero_mod _).symm
            offset_aligned := Nat.dvd_zero _ }

end BlockLog.Ring
