import BlockLog.Proofs.Ring

/-! How a push gets its bytes into the storage. It copies spans: from the head on as many bytes as there
    are, or as many as there is storage left, and then again from where that ended, until no bytes are
    left. In a valid ring this comes to its end after two spans at the latest, for the second one starts at
    the start of the storage, and it leaves the ring as storing the bytes one at a time does.

        storage:  ┌─────────────┬───────────────┬──────────────┬────────────┐
                  │ second span │     free      │    queue     │ first span │
                  └─────────────┴───────────────┴──────────────┴────────────┘
                                                ▲ tail         ▲ head

    The positions that the spans cover are those from the head on, cyclically, as many as there are bytes.
    The queue lies before the head, and there is room for both. So no span touches the queue. -/

namespace BlockLog.Ring

/-- A stretch of the storage that is written in one go. -/
structure Span where
  start : Nat
  length : Nat
  deriving DecidableEq

/-- The position lies in the span. -/
def Span.Covers (s : Span) (i : Nat) : Prop := s.start ≤ i ∧ i < s.start + s.length

/-- The span that the first of the bytes go to. -/
def nextSpan (r : Ring) (bytes : Bytes) : Span :=
  { start := r.head, length := min (r.capacity - r.head) bytes.length }

/-- The ring with that span copied in. -/
def copySpan (r : Ring) (bytes : Bytes) : Ring :=
  { r with
    storage := r.storage.overwrite r.head (bytes.take (r.nextSpan bytes).length)
    head := (r.head + (r.nextSpan bytes).length) % r.capacity }

/-- Copying the bytes span by span comes to its end: these spans have been written, and this is the ring
    then. From a ring where it would go on with empty spans for ever there is no such end. -/
inductive Copies : Ring → Bytes → List Span → Ring → Prop where
  | done (r : Ring) : Copies r [] [] r
  | next {r copied : Ring} {bytes : Bytes} {spans : List Span} (left : bytes ≠ [])
      (rest : Copies (r.copySpan bytes) (bytes.drop (r.nextSpan bytes).length) spans copied) :
      Copies r bytes (r.nextSpan bytes :: spans) copied

variable {r copied : Ring} {bytes : Bytes} {spans : List Span}

/-! ### One span -/

theorem copySpans_cons (turns : Nat) (r : Ring) (b : UInt8) (bs : Bytes) :
    copySpans (turns + 1) r (b :: bs) =
      copySpans turns (r.copySpan (b :: bs)) ((b :: bs).drop (r.nextSpan (b :: bs)).length) := rfl

theorem nextSpan_length_pos (hhead : r.head < r.capacity) (left : bytes ≠ []) :
    0 < (r.nextSpan bytes).length := by
  have hlen := List.length_pos_iff.2 left
  simp only [nextSpan]
  omega

@[simp] theorem filled_copySpan (r : Ring) (bytes : Bytes) :
    (r.copySpan bytes).filled = r.filled := by
  simp only [copySpan]

@[simp] theorem capacity_copySpan (r : Ring) (bytes : Bytes) :
    (r.copySpan bytes).capacity = r.capacity := by
  simp only [capacity, copySpan]

theorem head_copySpan_lt (hhead : r.head < r.capacity) (bytes : Bytes) :
    (r.copySpan bytes).head < (r.copySpan bytes).capacity := by
  rw [capacity_copySpan]
  exact Nat.mod_lt _ (Nat.zero_lt_of_lt hhead)

/-! ### All of them -/

namespace Copies

theorem filled_eq (h : Copies r bytes spans copied) : copied.filled = r.filled := by
  induction h with
  | done => rfl
  | @next r copied bytes spans _ _ ih => rw [ih, filled_copySpan]

/-- Copying that comes to its end does so within any number of turns that is not smaller. -/
theorem copySpans_eq (h : Copies r bytes spans copied) :
    ∀ {turns : Nat}, spans.length ≤ turns → copySpans turns r bytes = copied := by
  induction h with
  | done r =>
    intro turns _
    cases turns <;> rfl
  | @next r copied bytes spans left _ ih =>
    intro turns hturns
    obtain ⟨b, bs, rfl⟩ := List.exists_cons_of_ne_nil left
    rw [List.length_cons] at hturns
    obtain ⟨turns, rfl⟩ := Nat.exists_eq_add_one_of_ne_zero (show turns ≠ 0 by omega)
    rw [copySpans_cons]
    exact ih (by omega)

/-- Each span takes a byte at least. -/
theorem length_le (h : Copies r bytes spans copied) (hhead : r.head < r.capacity) :
    spans.length ≤ bytes.length := by
  induction h with
  | done => exact Nat.le_refl _
  | @next r copied bytes spans left _ ih =>
    have hrest := ih (head_copySpan_lt hhead bytes)
    have hpos := nextSpan_length_pos hhead left
    have hlen := List.length_pos_iff.2 left
    rw [List.length_drop] at hrest
    rw [List.length_cons]
    omega

/-- The spans lie inside the storage, and none is empty. -/
theorem bounds (h : Copies r bytes spans copied) (hhead : r.head < r.capacity) :
    ∀ s ∈ spans, 0 < s.length ∧ s.start + s.length ≤ r.capacity := by
  induction h with
  | done => simp
  | @next r copied bytes spans left _ ih =>
    intro s hs
    rcases List.mem_cons.1 hs with rfl | hs
    · refine ⟨nextSpan_length_pos hhead left, ?_⟩
      simp only [nextSpan]
      omega
    · rw [← capacity_copySpan r bytes]
      exact ih (head_copySpan_lt hhead bytes) s hs

/-- The spans cover positions that follow the head, no more than there are bytes. -/
theorem covers (h : Copies r bytes spans copied) (hhead : r.head < r.capacity) :
    ∀ s ∈ spans, ∀ i, s.Covers i → ∃ k < bytes.length, i = (r.head + k) % r.capacity := by
  induction h with
  | done => simp
  | @next r copied bytes spans left _ ih =>
    intro s hs i hi
    rcases List.mem_cons.1 hs with rfl | hs
    · simp only [Span.Covers, nextSpan] at hi
      refine ⟨i - r.head, by omega, ?_⟩
      rw [Nat.add_sub_cancel' hi.1, Nat.mod_eq_of_lt (by omega)]
    · obtain ⟨k, hk, rfl⟩ := ih (head_copySpan_lt hhead bytes) s hs i hi
      rw [List.length_drop] at hk
      refine ⟨(r.nextSpan bytes).length + k, by omega, ?_⟩
      rw [capacity_copySpan, copySpan, Nat.mod_add_mod, Nat.add_assoc]

/-- The spans that the ring has room for miss the queue: a position that they cover is reached from the tail
    by a count behind the queue. -/
theorem misses_queue (h : Copies r bytes spans copied) (hvalid : r.Valid)
    (hroom : r.filled + bytes.length ≤ r.capacity) :
    ∀ s ∈ spans, ∀ i < r.filled, ¬s.Covers ((r.tail + i) % r.capacity) := by
  intro s hs i hi hcovers
  obtain ⟨k, hk, heq⟩ := h.covers hvalid.head_lt s hs _ hcovers
  rw [hvalid.head_eq, Nat.mod_add_mod, Nat.add_assoc] at heq
  have hik : i = r.filled + k := eq_of_add_mod_eq (by omega) (by omega) heq
  omega

end Copies

/-- Bytes that do not reach over the end of the storage are one span. -/
theorem copies_one (left : bytes ≠ []) (hends : bytes.length ≤ r.capacity - r.head) :
    Copies r bytes [r.nextSpan bytes] (r.copySpan bytes) := by
  have hnone : bytes.drop (r.nextSpan bytes).length = [] := by
    simp [nextSpan, Nat.min_eq_right hends]
  refine .next left ?_
  rw [hnone]
  exact .done _

/-- Bytes that the storage has room for are copied in two spans at most: what the first one leaves goes to
    the start of the storage, all of it. -/
theorem exists_copies (hhead : r.head < r.capacity) (hroom : bytes.length ≤ r.capacity) :
    ∃ spans copied, Copies r bytes spans copied ∧ spans.length ≤ 2 := by
  by_cases hnone : bytes = []
  · subst hnone
    exact ⟨_, _, .done r, Nat.zero_le _⟩
  by_cases hends : bytes.length ≤ r.capacity - r.head
  · exact ⟨_, _, copies_one hnone hends, by simp⟩
  · have hfirst : (r.nextSpan bytes).length = r.capacity - r.head := by
      simp only [nextSpan]
      omega
    have hleft : bytes.drop (r.nextSpan bytes).length ≠ [] := by
      rw [Ne, List.drop_eq_nil_iff]
      omega
    have hstart : (r.copySpan bytes).head = 0 := by
      simp [copySpan, hfirst, Nat.add_sub_cancel' (Nat.le_of_lt hhead)]
    refine ⟨_, _, .next hnone (copies_one hleft ?_), by simp⟩
    rw [List.length_drop, hstart, capacity_copySpan]
    omega

/-! ### The push -/

/-- A push copies what there is room for, and counts it. -/
theorem push_eq_of_copies (hhead : r.head < r.capacity)
    (h : Copies r (bytes.take (min bytes.length r.free)) spans copied) :
    r.push bytes =
      (copied.withFilled (r.filled + min bytes.length r.free), min bytes.length r.free) := by
  have hlen := h.length_le hhead
  rw [List.length_take] at hlen
  have hcopied : copySpans (min bytes.length r.free) r (bytes.take (min bytes.length r.free)) = copied :=
    h.copySpans_eq (by omega)
  simp only [push, hcopied, h.filled_eq, withFilled]

/-- The queue is what the storage holds from the tail on, cyclically. -/
theorem getElem?_queue (h : r.Valid) {i : Nat} (hi : i < r.filled) :
    r.queue[i]? = r.storage.toList[(r.tail + i) % r.capacity]? := by
  have hlen : r.storage.toList.length = r.capacity := h.size_storage
  have hle := h.filled_le
  rw [queue, List.getElem?_take_of_lt hi, window, List.getElem?_rotate (by omega), hlen, Nat.add_comm]

/-- What is buffered stays in its place. -/
theorem getElem?_storage_push (h : r.Valid) (bytes : Bytes) {i : Nat} (hi : i < r.filled) :
    (r.push bytes).1.storage.toList[(r.tail + i) % r.capacity]? =
      r.storage.toList[(r.tail + i) % r.capacity]? := by
  have hgrown := push_filled h bytes
  rw [← getElem?_queue h hi, ← push_tail h bytes, ← push_capacity h bytes,
    ← getElem?_queue (h.push bytes) (by omega), queue_push h,
    List.getElem?_append_left (by rw [h.length_queue]; exact hi)]

/-- Pushing bytes and then more is pushing all of them, also where there is not room for all. -/
theorem push_append (h : r.Valid) (bytes more : Bytes) :
    (((r.push bytes).1.push more).1, (r.push bytes).2 + ((r.push bytes).1.push more).2) =
      r.push (bytes ++ more) := by
  have hfree : (r.push bytes).1.free = r.free - bytes.length := by
    have hfilled := push_filled h bytes
    rw [List.length_take] at hfilled
    rw [free, push_capacity h, hfilled, free]
    omega
  refine Prod.ext ?_ ?_
  · rw [push_eq_foldl (h.push bytes), hfree, push_eq_foldl h, push_eq_foldl h, List.take_append,
      List.foldl_append]
  · simp only [push, List.length_append] at hfree ⊢
    omega

/-- Copying spans is storing bytes one at a time.

    A push into a valid ring leaves it, down to the last byte of the storage, as storing the first bytes, as
    many as there is room for, one at a time at the head does, and answers how many these are. It comes
    to its end after two spans at the most, each inside the storage, and none of them covers a byte of the
    queue, so that what was buffered is in its place afterwards. Pushing in two parts comes to the same,
    whether there is room for both of them or not. -/
theorem push_bytewise (h : r.Valid) (bytes : Bytes) :
    r.push bytes =
      ((bytes.take (min bytes.length r.free)).foldl pushByte r, min bytes.length r.free) ∧
    (∃ spans copied, Copies r (bytes.take (min bytes.length r.free)) spans copied ∧
      r.push bytes =
        (copied.withFilled (r.filled + min bytes.length r.free), min bytes.length r.free) ∧
      spans.length ≤ 2 ∧
      ∀ s ∈ spans, 0 < s.length ∧ s.start + s.length ≤ r.storage.size ∧
        ∀ i < r.filled, ¬s.Covers ((r.tail + i) % r.capacity)) ∧
    (∀ i < r.filled, (r.push bytes).1.storage.toList[(r.tail + i) % r.capacity]? =
      r.storage.toList[(r.tail + i) % r.capacity]?) ∧
    ∀ more, (((r.push bytes).1.push more).1, (r.push bytes).2 + ((r.push bytes).1.push more).2) =
      r.push (bytes ++ more) := by
  have hroom : r.filled + (bytes.take (min bytes.length r.free)).length ≤ r.capacity := by
    have hfilled := h.filled_le
    rw [List.length_take, free]
    omega
  obtain ⟨spans, copied, hcopies, htwo⟩ :=
    exists_copies h.head_lt (Nat.le_trans (Nat.le_add_left ..) hroom)
  refine ⟨?_, ⟨spans, copied, hcopies, push_eq_of_copies h.head_lt hcopies, htwo, fun s hs => ?_⟩,
    fun i hi => getElem?_storage_push h bytes hi, push_append h bytes⟩
  · refine Prod.ext ?_ rfl
    rw [push_eq_foldl h, ← take_push_snd]
    rfl
  · obtain ⟨hpos, hin⟩ := hcopies.bounds h.head_lt s hs
    exact ⟨hpos, by rwa [h.size_storage], hcopies.misses_queue h hroom s hs⟩

/-- The head stands before the last byte of the storage, and the only byte that is buffered before it. Of
    four bytes one is copied to the end and two to the start, up to the tail. -/
theorem push_bytewise_wrapped : ∃ r : Ring, r.Valid ∧ r.storage.toList = [1, 2, 3, 4] ∧
    r.tail = 2 ∧ r.filled = 1 ∧
    (r.push [7, 8, 9, 10]).1.storage.toList = [8, 9, 3, 7] ∧
    r.push [7, 8, 9, 10] = ([7, 8, 9].foldl pushByte r, 3) ∧
    ∃ spans copied, Copies r [7, 8, 9] spans copied ∧ spans.length ≤ 2 := by
  let r : Ring :=
    { storage := .ofList [1, 2, 3, 4], blockSize := 2, blocks := 2, head := 3, tail := 2, filled := 1,
      tailOffset := 6 }
  have hvalid : r.Valid :=
    ⟨by decide, rfl, by decide, by decide, by decide, rfl, by decide⟩
  obtain ⟨hpush, ⟨spans, copied, hcopies, -, htwo, -⟩, -⟩ := push_bytewise hvalid [7, 8, 9, 10]
  exact ⟨r, hvalid, rfl, rfl, rfl, by decide +kernel, hpush, spans, copied, hcopies, htwo⟩

end BlockLog.Ring
