import BlockLog.Bytes

/-! Bytes kept in an array, so that a position in the middle is reached at once. The write buffer
    and the devices keep theirs so. `toList` says which byte string a store holds, and every
    operation does to it what the operation of the same name in `Bytes` does. -/

namespace BlockLog

/-- A byte string kept in an array. -/
structure Store where
  array : ByteArray

instance : DecidableEq Store
  | ⟨⟨a⟩⟩, ⟨⟨b⟩⟩ => decidable_of_iff (a = b) (by simp)

namespace Store

/-- The byte string that is kept. -/
def toList (s : Store) : Bytes := s.array.data.toList

/-- A store of the bytes of a string. -/
def ofList (bytes : Bytes) : Store := ⟨⟨bytes.toArray⟩⟩

/-- A store of `n` zero bytes. -/
def zeros (n : Nat) : Store := ⟨⟨Array.replicate n 0⟩⟩

def size (s : Store) : Nat := s.array.size

/-- The `len` bytes from position `start` on, fewer where the store ends earlier. -/
def slice (s : Store) (start len : Nat) : Bytes :=
  (s.array.extract (min start s.size) (min (start + len) s.size)).data.toList

/-- The store with `bytes` written over it from position `start` on; a gap before `start` is filled
    with zeros. -/
def overwrite (s : Store) (start : Nat) (bytes : Bytes) : Store :=
  let filled := if start ≤ s.size then s.array else s.array ++ (zeros (start - s.size)).array
  ⟨(ofList bytes).array.copySlice 0 filled start bytes.length⟩

/-- The store cut down or filled up with zeros to exactly `len` bytes. -/
def resize (s : Store) (len : Nat) : Store :=
  if len ≤ s.size then ⟨s.array.extract 0 len⟩ else ⟨s.array ++ (zeros (len - s.size)).array⟩

/-! ### What the operations do to the byte string -/

/-- Stores of the same bytes are the same. -/
theorem ext_toList {s t : Store} (h : s.toList = t.toList) : s = t := by
  cases s
  cases t
  exact congrArg Store.mk (ByteArray.ext (Array.toList_inj.1 h))

@[simp] theorem toList_ofList (bytes : Bytes) : (ofList bytes).toList = bytes := rfl

@[simp] theorem toList_zeros (n : Nat) : (zeros n).toList = Bytes.zeros n :=
  Array.toList_replicate

@[simp] theorem length_toList (s : Store) : s.toList.length = s.size := rfl

@[simp] theorem slice_eq (s : Store) (start len : Nat) :
    s.slice start len = s.toList.slice start len := by
  simp only [slice, ByteArray.data_extract, Array.toList_extract, toList, Bytes.slice, List.extract,
    size, ← ByteArray.size_data, ← Array.length_toList]
  generalize s.array.data.toList = l
  rcases Nat.le_total start l.length with h | h
  · rw [Nat.min_eq_left h, List.take_eq_take_iff]
    simp only [List.length_drop]
    omega
  · rw [List.drop_eq_nil_of_le h, List.drop_eq_nil_of_le (by omega)]
    simp

/-- An array behind another holds the one string behind the other. -/
theorem toList_append (a b : ByteArray) : toList ⟨a ++ b⟩ = toList ⟨a⟩ ++ toList ⟨b⟩ := by
  simp [toList]

/-- A cut through an array is the same cut through its string. -/
theorem toList_extract (a : ByteArray) (start stop : Nat) :
    toList ⟨a.extract start stop⟩ = (toList ⟨a⟩).extract start stop := by
  simp [toList]

@[simp] theorem toList_overwrite (s : Store) (start : Nat) (bytes : Bytes) :
    (s.overwrite start bytes).toList = s.toList.overwrite start bytes := by
  have key : ∀ a : ByteArray,
      toList ⟨(ofList bytes).array.copySlice 0 a start bytes.length⟩ =
        (toList ⟨a⟩).take start ++ (bytes ++ (toList ⟨a⟩).drop (start + bytes.length)) := by
    intro a
    simp only [toList, ofList, ByteArray.copySlice_eq_append, ByteArray.data_append,
      ByteArray.data_extract, Array.toList_append, Array.toList_extract, List.extract,
      ByteArray.size_data, List.size_toArray, Nat.min_self, Nat.zero_add, Nat.sub_zero,
      List.drop_zero, List.take_length, List.append_assoc]
    rw [List.take_of_length_le (i := a.size - (start + bytes.length))
      (by simp [← ByteArray.size_data])]
  rw [overwrite, key, Bytes.overwrite, length_toList]
  by_cases h : start ≤ s.size
  · simp [h, Nat.sub_eq_zero_of_le h, Bytes.zeros]
  · have hs : (toList ⟨s.array⟩).length = s.size := rfl
    have hz : toList ⟨(zeros (start - s.size)).array⟩ = Bytes.zeros (start - s.size) :=
      toList_zeros _
    rw [if_neg h, toList_append, hz, List.take_of_length_le (by simp [hs]; omega),
      List.drop_of_length_le (by simp [hs]; omega), List.take_of_length_le (by simp; omega),
      List.drop_of_length_le (by simp; omega), List.append_assoc]

theorem size_overwrite (s : Store) (start : Nat) (bytes : Bytes) :
    (s.overwrite start bytes).size = max s.size (start + bytes.length) := by
  rw [← length_toList, toList_overwrite, Bytes.length_overwrite, length_toList]

/-- Writing nothing inside the store changes nothing. -/
theorem overwrite_nil {s : Store} {start : Nat} (h : start ≤ s.size) : s.overwrite start [] = s := by
  apply ext_toList
  have hzeros : Bytes.zeros (start - s.size) = [] := by rw [Nat.sub_eq_zero_of_le h]; rfl
  rw [toList_overwrite, Bytes.overwrite, length_toList, hzeros]
  simp

/-- Two writes side by side are one. -/
theorem overwrite_overwrite (s : Store) (start : Nat) (first rest : Bytes) :
    (s.overwrite start first).overwrite (start + first.length) rest =
      s.overwrite start (first ++ rest) := by
  apply ext_toList
  simp only [toList_overwrite, Bytes.overwrite_overwrite]

@[simp] theorem toList_resize (s : Store) (len : Nat) :
    (s.resize len).toList = s.toList.resize len := by
  unfold resize
  split
  · rename_i h
    simp [toList_extract, Bytes.resize, Bytes.zeros, Nat.sub_eq_zero_of_le h]
  · rename_i h
    simp only [toList_append, Bytes.resize, length_toList]
    rw [List.take_of_length_le (by simp; omega)]
    exact congrArg _ (toList_zeros _)

end Store

end BlockLog
