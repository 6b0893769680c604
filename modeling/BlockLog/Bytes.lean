/-! Byte strings and the two operations that every store of bytes here is built from: cutting a
    slice out and writing bytes over a position. Writing past the end fills the gap with zeros, so
    `overwrite` alone says how a device grows; inside the end it keeps the length. -/

namespace BlockLog

/-- A byte string. -/
abbrev Bytes := List UInt8

namespace Bytes

/-- `n` zero bytes. -/
def zeros (n : Nat) : Bytes := List.replicate n 0

/-- The `len` bytes from position `start` on, fewer where the string ends earlier. -/
def slice (data : Bytes) (start len : Nat) : Bytes := (data.drop start).take len

/-- `data` with `bytes` written over it from position `start` on; a gap before `start` is filled
    with zeros. -/
def overwrite (data : Bytes) (start : Nat) (bytes : Bytes) : Bytes :=
  data.take start ++ (zeros (start - data.length) ++ (bytes ++ data.drop (start + bytes.length)))

/-- `data` with `bytes` laid over its start. The length stays, and bytes that find no room are
    dropped. -/
def overlay (data bytes : Bytes) : Bytes := data.overwrite 0 (bytes.take data.length)

/-- `data` cut down or filled up with zeros to exactly `len` bytes. -/
def resize (data : Bytes) (len : Nat) : Bytes := data.take len ++ zeros (len - data.length)

/-- The string cut into pieces of `size` bytes, the last one possibly shorter; at most `count` of
    them. -/
def pieces (size : Nat) : (count : Nat) → Bytes → List Bytes
  | 0, _ => []
  | _ + 1, [] => []
  | count + 1, b :: bs =>
    (b :: bs).take size :: pieces size count ((b :: bs).drop size)

/-- The string cut into pieces of `size` bytes, the last one possibly shorter. A size of zero counts
    as one. -/
def chunks (data : Bytes) (size : Nat) : List Bytes := pieces (max size 1) data.length data

@[simp] theorem length_zeros (n : Nat) : (zeros n).length = n := List.length_replicate

theorem length_slice (data : Bytes) (start len : Nat) :
    (slice data start len).length = min len (data.length - start) := by
  simp [slice]

theorem length_overwrite (data : Bytes) (start : Nat) (bytes : Bytes) :
    (overwrite data start bytes).length = max data.length (start + bytes.length) := by
  simp only [overwrite, List.length_append, List.length_take, length_zeros, List.length_drop]
  omega

@[simp] theorem length_overlay (data bytes : Bytes) :
    (overlay data bytes).length = data.length := by
  simp only [overlay, length_overwrite, List.length_take]
  omega

/-- A whole buffer laid over replaces everything. -/
theorem overlay_of_length_eq {data bytes : Bytes} (h : bytes.length = data.length) :
    overlay data bytes = bytes := by
  simp [overlay, overwrite, zeros, ← h]

@[simp] theorem length_resize (data : Bytes) (len : Nat) : (resize data len).length = len := by
  simp only [resize, List.length_append, List.length_take, length_zeros]
  omega

/-- What was written is read back. -/
theorem slice_overwrite (data : Bytes) (start : Nat) (bytes : Bytes) :
    slice (overwrite data start bytes) start bytes.length = bytes := by
  have h : (data.take start ++ zeros (start - data.length)).length = start := by
    simp only [List.length_append, List.length_take, length_zeros]
    omega
  rw [slice, overwrite, ← List.append_assoc, List.drop_left' h, List.take_left]

/-- Two writes side by side are one. -/
theorem overwrite_overwrite (data : Bytes) (start : Nat) (first rest : Bytes) :
    (data.overwrite start first).overwrite (start + first.length) rest =
      data.overwrite start (first ++ rest) := by
  obtain ⟨front, hfront⟩ : ∃ front, front = data.take start ++ (zeros (start - data.length) ++ first) :=
    ⟨_, rfl⟩
  have hlen : front.length = start + first.length := by
    simp only [hfront, List.length_append, List.length_take, length_zeros]
    omega
  have hfirst : data.overwrite start first = front ++ data.drop front.length := by
    rw [overwrite, hlen, hfront, List.append_assoc, List.append_assoc]
  have hgap : front.length - (front ++ data.drop front.length).length = 0 := by
    rw [List.length_append]
    omega
  rw [hfirst, ← hlen, overwrite, hgap, List.take_left, List.drop_length_add_append, List.drop_drop,
    overwrite, List.length_append, ← Nat.add_assoc, ← hlen, hfront]
  simp [zeros]

/-- The pieces together are the string. -/
theorem flatten_pieces (size : Nat) (hs : 0 < size) :
    ∀ (count : Nat) (data : Bytes), data.length ≤ count → (pieces size count data).flatten = data
  | 0, [], _ => rfl
  | 0, _ :: _, h => by simp at h
  | _ + 1, [], _ => rfl
  | count + 1, b :: bs, h => by
    have hd : ((b :: bs).drop size).length ≤ count := by
      simp only [List.length_drop, List.length_cons] at h ⊢
      omega
    rw [pieces, List.flatten_cons, flatten_pieces size hs count _ hd, List.take_append_drop]

/-- A piece has a byte at least, and no more than the size. -/
theorem length_of_mem_pieces {size count : Nat} {data piece : Bytes} (hs : 0 < size)
    (h : piece ∈ pieces size count data) : 0 < piece.length ∧ piece.length ≤ size := by
  induction count generalizing data with
  | zero => simp [pieces] at h
  | succ count ih =>
    cases data with
    | nil => simp [pieces] at h
    | cons b bs =>
      rw [pieces] at h
      rcases List.mem_cons.1 h with rfl | h
      · rw [List.length_take, List.length_cons]
        omega
      · exact ih h

/-- A piece with another one behind it has the size. -/
theorem length_of_mem_dropLast_pieces {size count : Nat} {data piece : Bytes}
    (h : piece ∈ (pieces size count data).dropLast) : piece.length = size := by
  induction count generalizing data with
  | zero => simp [pieces] at h
  | succ count ih =>
    cases data with
    | nil => simp [pieces] at h
    | cons b bs =>
      rw [pieces] at h
      by_cases hlast : pieces size count ((b :: bs).drop size) = []
      · simp [hlast] at h
      · rw [List.dropLast_cons_of_ne_nil hlast] at h
        rcases List.mem_cons.1 h with rfl | h
        · have hleft : (b :: bs).drop size ≠ [] := by
            intro hnone
            rw [hnone] at hlast
            cases count <;> exact hlast rfl
          rw [Ne, List.drop_eq_nil_iff] at hleft
          rw [List.length_take]
          omega
        · exact ih h

theorem flatten_chunks (data : Bytes) (size : Nat) : (data.chunks size).flatten = data :=
  flatten_pieces _ (by omega) _ _ (Nat.le_refl _)

end Bytes

end BlockLog
