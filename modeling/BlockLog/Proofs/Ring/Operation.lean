import BlockLog.Proofs.Ring

/-! The five calls of the ring as data, and when each may be made. The ring itself checks nothing, so
    beside each call stands one that does: it refuses a subtraction that would go below zero, a
    division by zero and a stretch of bytes that is not all inside the storage. A call that may be
    made goes through the checks and does the same.

        call          may be made while                                    answers
        push          always                                               how many bytes it took
        oldest        a whole block is buffered                            the block
        dropOldest    a whole block is buffered
        fillUp        always                                               how many zeros it added
        takeBack pad  nothing is buffered, 0 < pad < blockSize,
                      and a block has been popped -/

namespace BlockLog

/-! ### Checks -/

/-- `a - b`, unless that is below zero. -/
def minus? (a b : Nat) : Option Nat := if b ≤ a then some (a - b) else none

/-- `a % b`, unless `b` is zero. -/
def rem? (a b : Nat) : Option Nat := if b = 0 then none else some (a % b)

theorem minus?_eq {a b : Nat} (h : b ≤ a) : minus? a b = some (a - b) := if_pos h

theorem rem?_eq {b : Nat} (h : 0 < b) (a : Nat) : rem? a b = some (a % b) := if_neg (by omega)

/-- The first `n` bytes, if there are so many. -/
def Bytes.take? (bytes : Bytes) (n : Nat) : Option Bytes :=
  if n ≤ bytes.length then some (bytes.take n) else none

namespace Store

/-- The `len` bytes from position `start` on, if the store has them all. -/
def slice? (s : Store) (start len : Nat) : Option Bytes :=
  if start + len ≤ s.size then some (s.slice start len) else none

/-- The store with `bytes` written over it, if they find room in it. -/
def overwrite? (s : Store) (start : Nat) (bytes : Bytes) : Option Store :=
  if start + bytes.length ≤ s.size then some (s.overwrite start bytes) else none

end Store

namespace Ring

/-! ### Calls -/

/-- A call of the ring. -/
inductive Operation where
  | push (bytes : Bytes)
  | oldest
  | dropOldest
  | fillUp
  | takeBack (pad : Nat)
  deriving DecidableEq

/-- What a call of the ring answers. -/
inductive Yield where
  | count (n : Nat)
  | block (bytes : Bytes)
  | nothing
  deriving DecidableEq

/-- The ring after a call, and the answer. -/
def perform (r : Ring) : Operation → Ring × Yield
  | .push bytes => ((r.push bytes).1, .count (r.push bytes).2)
  | .oldest => (r, .block r.oldest)
  | .dropOldest => (r.dropOldest, .nothing)
  | .fillUp => (r.fillUp.1, .count r.fillUp.2)
  | .takeBack pad => (r.takeBack pad, .nothing)

/-- The ring after the calls, and their answers. -/
def run (r : Ring) : List Operation → Ring × List Yield
  | [] => (r, [])
  | op :: ops =>
    (((r.perform op).1.run ops).1, (r.perform op).2 :: ((r.perform op).1.run ops).2)

/-- The calls, each with the ring that it is made on. -/
def calls (r : Ring) : List Operation → List (Ring × Operation)
  | [] => []
  | op :: ops => (r, op) :: (r.perform op).1.calls ops

/-- The call only puts bytes in at the head. -/
def Operation.adds : Operation → Bool
  | .push _ | .fillUp => true
  | _ => false

/-- When a call may be made. -/
def Admits (r : Ring) : Operation → Prop
  | .push _ | .fillUp => True
  | .oldest | .dropOldest => r.blockSize ≤ r.filled
  | .takeBack pad => r.filled = 0 ∧ 0 < pad ∧ pad < r.blockSize ∧ r.blockSize ≤ r.tailOffset

variable {r : Ring} {op : Operation}

/-! ### Calls that check -/

/-- `free`, checked. -/
def free? (r : Ring) : Option Nat := minus? r.capacity r.filled

/-- `copySpans`, checked. Bytes that are left over at the end are a failure too. -/
def copySpans? : Nat → Ring → Bytes → Option Ring
  | _, r, [] => some r
  | 0, _, _ :: _ => none
  | spans + 1, r, b :: bs => do
    let room ← minus? r.capacity r.head
    let span := min room (b :: bs).length
    let stretch ← Bytes.take? (b :: bs) span
    let storage ← r.storage.overwrite? r.head stretch
    let head ← rem? (r.head + span) r.capacity
    copySpans? spans { r with storage := storage, head := head } ((b :: bs).drop span)

/-- `push`, checked. -/
def push? (r : Ring) (bytes : Bytes) : Option (Ring × Nat) := do
  let free ← r.free?
  let n := min bytes.length free
  let copied ← copySpans? n r (bytes.take n)
  some ({ copied with filled := copied.filled + n }, n)

/-- `oldest`, checked. -/
def oldest? (r : Ring) : Option Bytes := r.storage.slice? r.tail r.blockSize

/-- `dropOldest`, checked. -/
def dropOldest? (r : Ring) : Option Ring := do
  let tail ← rem? (r.tail + r.blockSize) r.capacity
  let filled ← minus? r.filled r.blockSize
  some { r with tail := tail, filled := filled, tailOffset := r.tailOffset + r.blockSize }

/-- `fillUp`, checked. -/
def fillUp? (r : Ring) : Option (Ring × Nat) := do
  let rest ← rem? r.filled r.blockSize
  if rest = 0 then some (r, 0)
  else
    let pad ← minus? r.blockSize rest
    let storage ← r.storage.overwrite? r.head (Bytes.zeros pad)
    let head ← rem? (r.head + pad) r.capacity
    some ({ r with storage := storage, head := head, filled := r.filled + pad }, pad)

/-- `takeBack`, checked. -/
def takeBack? (r : Ring) (pad : Nat) : Option Ring := do
  let head ← rem? (← minus? (r.head + r.capacity) pad) r.capacity
  let tail ← rem? (← minus? (r.tail + r.capacity) r.blockSize) r.capacity
  let filled ← minus? r.blockSize pad
  let tailOffset ← minus? r.tailOffset r.blockSize
  some { r with head := head, tail := tail, filled := filled, tailOffset := tailOffset }

/-- A call, checked. -/
def perform? (r : Ring) : Operation → Option (Ring × Yield)
  | .push bytes => (r.push? bytes).map fun result => (result.1, .count result.2)
  | .oldest => r.oldest?.map fun block => (r, .block block)
  | .dropOldest => r.dropOldest?.map fun after => (after, .nothing)
  | .fillUp => r.fillUp?.map fun result => (result.1, .count result.2)
  | .takeBack pad => (r.takeBack? pad).map fun after => (after, .nothing)

/-! ### Calls that may be made pass the checks -/

theorem free?_eq (h : r.Valid) : r.free? = some r.free := minus?_eq h.filled_le

/-- Every span lies inside the storage, and every byte is copied. -/
theorem copySpans?_eq (spans : Nat) : ∀ (r : Ring) (bytes : Bytes), r.storage.size = r.capacity →
    r.head < r.capacity → bytes.length ≤ spans →
    copySpans? spans r bytes = some (copySpans spans r bytes) := by
  induction spans with
  | zero =>
    intro r bytes _ _ hl
    rw [List.length_eq_zero_iff.1 (Nat.le_zero.1 hl)]
    rfl
  | succ spans ih =>
    intro r bytes hs hh hl
    cases bytes with
    | nil => rfl
    | cons b bs =>
      rw [List.length_cons] at hl
      have hspan : min (r.capacity - r.head) (b :: bs).length ≤ r.capacity - r.head :=
        Nat.min_le_left ..
      have hpos : 0 < min (r.capacity - r.head) (b :: bs).length := by
        rw [List.length_cons]
        omega
      have hfits : r.head + ((b :: bs).take (min (r.capacity - r.head) (b :: bs).length)).length ≤
          r.storage.size := by
        rw [List.length_take, hs]
        omega
      simp only [copySpans?, copySpans, minus?_eq (Nat.le_of_lt hh), Bytes.take?,
        if_pos (Nat.min_le_right (r.capacity - r.head) (b :: bs).length), Store.overwrite?, if_pos hfits,
        rem?_eq (Nat.lt_of_le_of_lt (Nat.zero_le _) hh), Option.bind_eq_bind, Option.bind_some]
      refine ih _ _ ?_ (Nat.mod_lt _ (Nat.lt_of_le_of_lt (Nat.zero_le _) hh)) ?_
      · exact (Store.size_overwrite ..).trans ((Nat.max_eq_left hfits).trans hs)
      · rw [List.length_drop, List.length_cons] at *
        omega

theorem push?_eq (h : r.Valid) (bytes : Bytes) : r.push? bytes = some (r.push bytes) := by
  have hcopy := copySpans?_eq (min bytes.length r.free) r (bytes.take (min bytes.length r.free))
    h.size_storage h.head_lt (by rw [List.length_take]; omega)
  simp only [push?, free?_eq h, Option.bind_eq_bind, Option.bind_some, hcopy, push]

theorem oldest?_eq (h : r.Valid) : r.oldest? = some r.oldest :=
  if_pos (by rw [h.size_storage]; exact h.tail_add_le)

theorem Valid.capacity_pos (h : r.Valid) : 0 < r.capacity :=
  Nat.lt_of_le_of_lt (Nat.zero_le _) h.tail_lt

theorem dropOldest?_eq (h : r.Valid) (hf : r.blockSize ≤ r.filled) :
    r.dropOldest? = some r.dropOldest := by
  simp only [dropOldest?, rem?_eq h.capacity_pos, minus?_eq hf, Option.bind_eq_bind, Option.bind_some,
    dropOldest]

theorem fillUp?_eq (h : r.Valid) : r.fillUp? = some r.fillUp := by
  have hlt := Nat.mod_lt r.filled h.blockSize_pos
  have hpad : r.padding =
      if r.filled % r.blockSize = 0 then 0 else r.blockSize - r.filled % r.blockSize := rfl
  simp only [fillUp?, fillUp, rem?_eq h.blockSize_pos, Option.bind_eq_bind, Option.bind_some]
  by_cases hz : r.filled % r.blockSize = 0
  · rw [if_pos hz] at hpad ⊢
    rw [if_pos hpad]
  · rw [if_neg hz] at hpad ⊢
    have hfits : r.head + (Bytes.zeros r.padding).length ≤ r.storage.size := by
      rw [Bytes.length_zeros, h.size_storage]
      exact head_add_padding_le h
    rw [minus?_eq (Nat.le_of_lt hlt), ← hpad, if_neg (by omega)]
    simp only [Store.overwrite?, if_pos hfits, rem?_eq h.capacity_pos, Option.bind_some]

theorem takeBack?_eq (h : r.Valid) {pad : Nat} (ha : r.Admits (.takeBack pad)) :
    r.takeBack? pad = some (r.takeBack pad) := by
  obtain ⟨-, -, hpad, hoffset⟩ := ha
  have hle := h.blockSize_le_capacity
  simp only [takeBack?, takeBack, rem?_eq h.capacity_pos, minus?_eq hoffset,
    minus?_eq (Nat.le_of_lt hpad), minus?_eq (show pad ≤ r.head + r.capacity by omega),
    minus?_eq (show r.blockSize ≤ r.tail + r.capacity by omega), Option.bind_eq_bind,
    Option.bind_some]

/-- A call that may be made is safe. -/
theorem perform?_eq (h : r.Valid) (ha : r.Admits op) : r.perform? op = some (r.perform op) := by
  cases op with
  | push bytes => rw [perform?, push?_eq h]; rfl
  | oldest => rw [perform?, oldest?_eq h]; rfl
  | dropOldest => rw [perform?, dropOldest?_eq h ha]; rfl
  | fillUp => rw [perform?, fillUp?_eq h]; rfl
  | takeBack pad => rw [perform?, takeBack?_eq h ha]; rfl

end Ring

end BlockLog
