import BlockLog.Bytes

/-! What a device contains when a log has been written over its start, block by block: the bytes of
    the log, zeros up to the end of the last block, and behind that whatever was there before. The
    last block may be written several times, each time with more bytes of the log in it.

        contents:  ┌───────────────────────┬───────┬───────────────────────┐
                   │         data          │ zeros │  initial, from there  │
                   └───────────────────────┴───────┴───────────────────────┘
                                           ▲       ▲ a whole number of blocks
                                           └ data.length -/

namespace BlockLog

/-- Of two multiples of a block size the greater is greater by a block at least. -/
theorem add_le_of_dvd_of_lt {blockSize a b : Nat} (ha : blockSize ∣ a) (hb : blockSize ∣ b)
    (h : a < b) : a + blockSize ≤ b := by
  have hle : blockSize ≤ b - a := Nat.le_of_dvd (by omega) (Nat.dvd_sub hb ha)
  omega

namespace Bytes

/-! ### Position by position -/

@[simp] theorem zeros_zero : zeros 0 = [] := rfl

theorem getElem?_slice (data : Bytes) (start len i : Nat) :
    (data.slice start len)[i]? = if i < len then data[start + i]? else none := by
  simp [slice, List.getElem?_take, List.getElem?_drop]

/-- Inside the bytes that are there, writing splits them in three. -/
theorem overwrite_of_le {data : Bytes} {start : Nat} (bytes : Bytes) (h : start ≤ data.length) :
    data.overwrite start bytes = data.take start ++ (bytes ++ data.drop (start + bytes.length)) := by
  simp [overwrite, Nat.sub_eq_zero_of_le h, zeros]

theorem getElem?_overwrite {data : Bytes} {start : Nat} (bytes : Bytes) (h : start ≤ data.length)
    (i : Nat) : (data.overwrite start bytes)[i]? =
      if start ≤ i ∧ i < start + bytes.length then bytes[i - start]? else data[i]? := by
  have hl : (data.take start).length = start := by rw [List.length_take]; omega
  rw [overwrite_of_le bytes h, List.getElem?_append, hl]
  by_cases hi : i < start
  · rw [if_pos hi, if_neg (by omega), List.getElem?_take_of_lt hi]
  · rw [if_neg hi, List.getElem?_append]
    by_cases hb : i < start + bytes.length
    · rw [if_pos (by omega), if_pos (by omega)]
    · rw [if_neg (by omega), if_neg (by omega), List.getElem?_drop]
      congr 1
      omega

/-! ### Slices -/

/-- A slice keeps its bytes when more are appended behind it. -/
theorem slice_append_of_le {data more : Bytes} {start len : Nat} (h : start + len ≤ data.length) :
    (data ++ more).slice start len = data.slice start len := by
  rw [slice, slice, List.drop_append_of_le_length (by omega),
    List.take_append_of_le_length (by rw [List.length_drop]; omega)]

/-- Block number `b`. -/
def block (data : Bytes) (blockSize b : Nat) : Bytes := data.slice (b * blockSize) blockSize

/-- Two slices side by side are one. -/
theorem slice_append_slice (data : Bytes) (start len more : Nat) :
    data.slice start len ++ data.slice (start + len) more = data.slice start (len + more) := by
  rw [slice, slice, slice, List.take_add, List.drop_drop]

/-- A slice that lies before or behind the writing stays. -/
theorem slice_overwrite_of_disjoint {data bytes : Bytes} {start first len : Nat}
    (h : start ≤ data.length) (hd : first + len ≤ start ∨ start + bytes.length ≤ first) :
    (data.overwrite start bytes).slice first len = data.slice first len := by
  apply List.ext_getElem?
  intro i
  rw [getElem?_slice, getElem?_slice]
  by_cases hi : i < len
  · rw [if_pos hi, if_pos hi, getElem?_overwrite bytes h, if_neg (by omega)]
  · rw [if_neg hi, if_neg hi]

/-! ### Whole blocks -/

/-- How many zeros complete the last block of `n` bytes. -/
def gap (blockSize n : Nat) : Nat := if n % blockSize = 0 then 0 else blockSize - n % blockSize

/-- The bytes, filled up with zeros to whole blocks. -/
def padded (blockSize : Nat) (data : Bytes) : Bytes := data ++ zeros (gap blockSize data.length)

/-- What a store that contained `initial` contains when `data` has been laid over its start in whole
    blocks. -/
def image (blockSize : Nat) (data initial : Bytes) : Bytes :=
  data.padded blockSize ++ initial.drop (data.padded blockSize).length

section

variable {blockSize : Nat}

theorem gap_lt (h : 0 < blockSize) (n : Nat) : gap blockSize n < blockSize := by
  unfold gap
  split
  · exact h
  · have := Nat.mod_lt n h
    omega

theorem dvd_add_gap (h : 0 < blockSize) (n : Nat) : blockSize ∣ n + gap blockSize n := by
  unfold gap
  split
  · rename_i hz
    exact Nat.dvd_of_mod_eq_zero hz
  · have hlt := Nat.mod_lt n h
    have heq : n + (blockSize - n % blockSize) = blockSize * (n / blockSize) + blockSize := by
      have := Nat.div_add_mod n blockSize
      omega
    rw [heq]
    exact Nat.dvd_add (Nat.dvd_mul_right ..) (Nat.dvd_refl _)

theorem gap_eq_zero (h : blockSize ∣ n) : gap blockSize n = 0 := if_pos (Nat.mod_eq_zero_of_dvd h)

/-- The gap reaches no further than any other multiple of the block size. -/
theorem add_gap_le (h : 0 < blockSize) {n stop : Nat} (hs : blockSize ∣ stop) (hn : n ≤ stop) :
    n + gap blockSize n ≤ stop := by
  rcases Nat.lt_or_ge stop (n + gap blockSize n) with hlt | hge
  · have := add_le_of_dvd_of_lt hs (dvd_add_gap h n) hlt
    have := gap_lt h n
    omega
  · exact hge

theorem gap_unique (h : 0 < blockSize) {n pad : Nat} (hp : pad < blockSize)
    (hd : blockSize ∣ n + pad) : gap blockSize n = pad := by
  have hle := add_gap_le h hd (Nat.le_add_right n pad)
  rcases Nat.lt_or_ge (n + gap blockSize n) (n + pad) with hlt | hge
  · have := add_le_of_dvd_of_lt (dvd_add_gap h n) hd hlt
    omega
  · omega

/-- A gap and what is before it take up so many blocks, counted up. -/
theorem add_gap_eq (h : 0 < blockSize) (n : Nat) :
    n + gap blockSize n = (n + blockSize - 1) / blockSize * blockSize := by
  obtain ⟨k, hk⟩ := dvd_add_gap h n
  have hg := gap_lt h n
  have hdiv : (n + blockSize - 1) / blockSize = k := by
    rw [Nat.div_eq_iff h]
    constructor
    · rw [Nat.mul_comm]; omega
    · rw [Nat.mul_comm]; omega
  rw [hdiv, hk, Nat.mul_comm]

@[simp] theorem length_padded (data : Bytes) :
    (data.padded blockSize).length = data.length + gap blockSize data.length := by
  simp [padded]

theorem add_gap_mono (h : 0 < blockSize) {m n : Nat} (hmn : m ≤ n) :
    m + gap blockSize m ≤ n + gap blockSize n :=
  add_gap_le h (dvd_add_gap h n) (by omega)

/-! ### The image of a log on a device -/

@[simp] theorem length_image (data initial : Bytes) : (image blockSize data initial).length =
    max initial.length (data.length + gap blockSize data.length) := by
  simp only [image, List.length_append, length_padded, List.length_drop]
  omega

@[simp] theorem image_nil (initial : Bytes) : image blockSize [] initial = initial := by
  simp [image, padded, gap, zeros]

theorem take_image {data : Bytes} (initial : Bytes) {n : Nat} (hn : n ≤ data.length) :
    (image blockSize data initial).take n = data.take n := by
  rw [image, padded, List.append_assoc, List.take_append_of_le_length hn]

theorem getElem?_image {data : Bytes} (initial : Bytes) {i : Nat} (hi : i < data.length) :
    (image blockSize data initial)[i]? = data[i]? := by
  rw [image, padded, List.append_assoc, List.getElem?_append_left hi]

theorem drop_image {data : Bytes} (initial : Bytes) {n : Nat}
    (hn : data.length + gap blockSize data.length ≤ n) :
    (image blockSize data initial).drop n = initial.drop n := by
  rw [image, List.drop_append, List.drop_of_length_le (by rw [length_padded]; omega),
    List.drop_drop, List.nil_append, length_padded]
  congr 1
  omega

/-- Writing the rest of some data over an image of its first bytes makes it an image of the whole. -/
theorem overwrite_image (h : 0 < blockSize) {data initial block : Bytes} {start n : Nat}
    (hs : start ≤ n) (hn : n ≤ data.length)
    (hb : data.take start ++ block = data.padded blockSize) :
    (image blockSize (data.take n) initial).overwrite start block = image blockSize data initial := by
  have hlen : (data.take n).length = n := by rw [List.length_take]; omega
  have hstop : start + block.length = (data.padded blockSize).length := by
    rw [← hb, List.length_append, List.length_take]
    omega
  have hmono := add_gap_mono h hn
  rw [overwrite_of_le block (by rw [length_image, hlen]; omega), take_image _ (by omega),
    List.take_take, Nat.min_eq_left hs, hstop, drop_image _ (by rw [hlen, length_padded]; omega),
    ← List.append_assoc, hb]
  rfl

end

end Bytes

end BlockLog
