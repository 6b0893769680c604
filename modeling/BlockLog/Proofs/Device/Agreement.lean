import BlockLog.Proofs.Device

/-! The device in memory beside the file, asked for the same transfers. The two agree on every one of
    them but an empty one behind all that has been written so far. To the file that one is nothing;
    the device in memory reaches out to it all the same: an empty write makes it grow up to there, over
    space that nothing has touched, and an empty read is refused.

                      0         touched         offset
        file          ├────────────┤               ·
        memory        ├────────────┤ 0 0 0 0 0 0 0 ┤        after an empty write at `offset` -/

namespace BlockLog.Device

/-- What a device is asked for. -/
inductive Transfer where
  | read (offset len : Nat)
  | write (offset : Nat) (bytes : Bytes)

namespace Transfer

def offset : Transfer → Nat
  | .read offset _ | .write offset _ => offset

def length : Transfer → Nat
  | .read _ len => len
  | .write _ bytes => bytes.length

/-- The end of the space that the transfer touches, if it is a write of whole blocks and not empty. -/
def reach (blockSize : Nat) : Transfer → Nat
  | .read .. => 0
  | .write offset bytes =>
    if bytes ≠ [] ∧ Aligned offset bytes.length blockSize then offset + bytes.length else 0

/-- An empty transfer at the start of a block behind what has been touched. -/
def Strays (blockSize touched : Nat) (t : Transfer) : Prop :=
  t.length = 0 ∧ Aligned t.offset 0 blockSize ∧ touched < t.offset

instance (blockSize touched : Nat) (t : Transfer) : Decidable (t.Strays blockSize touched) :=
  inferInstanceAs (Decidable (_ ∧ _ ∧ _))

end Transfer

/-- The bytes that a read brought, if it went through. -/
def answerOfRead {δ : Type} (r : ReadResult δ) : Option Bytes :=
  match r.outcome with
  | .ok () => some r.bytes
  | .error _ => none

/-- Whether a write went through; it brings no bytes. -/
def answerOfWrite {δ : Type} (w : WriteResult δ) : Option Bytes :=
  match w.outcome with
  | .done => some []
  | .failed _ | .panicked => none

/-- The device after a transfer, and its answer: none if it failed. -/
def transfer {δ : Type} [Device δ] (d : δ) : Transfer → δ × Option Bytes
  | .read offset len => ((Device.read d offset len).device, answerOfRead (Device.read d offset len))
  | .write offset bytes =>
    ((Device.write d offset bytes).device, answerOfWrite (Device.write d offset bytes))

/-- After each of the transfers, made on both devices, the two have answered the same and contain the
    same, and their length is the end of the space touched by then. -/
def Agree (m : Memory) (f : File) (touched : Nat) : List Transfer → Prop
  | [] => True
  | t :: ts =>
    (transfer m t).2 = (transfer f t).2 ∧
    (transfer m t).1.contents.toList = (transfer f t).1.contents.toList ∧
    (transfer m t).1.length = max touched (t.reach m.blockSize) ∧
    Agree (transfer m t).1 (transfer f t).1 (max touched (t.reach m.blockSize)) ts

/-- One of the transfers is an empty one behind what has been touched by then. -/
def SomeStrays (blockSize touched : Nat) : List Transfer → Prop
  | [] => False
  | t :: ts => t.Strays blockSize touched ∨ SomeStrays blockSize (max touched (t.reach blockSize)) ts

instance decidableSomeStrays : ∀ (blockSize touched : Nat) (ts : List Transfer),
    Decidable (SomeStrays blockSize touched ts)
  | _, _, [] => .isFalse id
  | blockSize, touched, t :: ts =>
    have := decidableSomeStrays blockSize (max touched (t.reach blockSize)) ts
    inferInstanceAs (Decidable (_ ∨ _))

/-! ### One transfer -/

theorem blockSize_transfer {δ : Type} [Device δ] [LawfulDevice δ] (d : δ) (t : Transfer) :
    Device.blockSize (transfer d t).1 = Device.blockSize d := by
  cases t with
  | read offset len => exact LawfulDevice.blockSize_read d offset len
  | write offset bytes => exact LawfulDevice.blockSize_write d offset bytes

section

variable {m : Memory} {f : File} {offset len : Nat} {bytes : Bytes}

theorem requireAligned_of_not_aligned {blockSize : Nat} (h : ¬ Aligned offset len blockSize) :
    requireAligned offset len blockSize = .error (.misaligned offset len blockSize) := if_neg h

theorem transfer_memory_read (hr : m.refusesReads = false) : transfer m (.read offset len) =
    if Aligned offset len m.blockSize ∧ offset + len ≤ m.length then
      ({ m with readBlocks := m.readBlocks + len / m.blockSize }, some (m.contents.slice offset len))
    else (m, none) := by
  show ((m.read offset len).device, answerOfRead (m.read offset len)) = _
  by_cases ha : Aligned offset len m.blockSize
  · by_cases hl : offset + len ≤ m.length
    · have hnone : m.readProblem? offset len = none := by
        rw [Memory.readProblem?, hr, requireAligned_of_aligned ha]
        exact if_neg (Nat.not_lt.2 hl)
      rw [Memory.read, hnone, if_pos ⟨ha, hl⟩]
      rfl
    · have hsome : m.readProblem? offset len =
          some (.refused (.beyondEnd offset len m.length)) := by
        rw [Memory.readProblem?, hr, requireAligned_of_aligned ha]
        exact if_pos (Nat.not_le.1 hl)
      rw [Memory.read, hsome, if_neg fun h => hl h.2]
      rfl
  · have hsome : m.readProblem? offset len = some (.misaligned offset len m.blockSize) := by
      rw [Memory.readProblem?, hr, requireAligned_of_not_aligned ha]
      rfl
    rw [Memory.read, hsome, if_neg fun h => ha h.1]
    rfl

theorem transfer_memory_write (hw : m.refusesWrites = false) : transfer m (.write offset bytes) =
    if Aligned offset bytes.length m.blockSize then
      ({ m with
        contents := m.contents.overwrite offset bytes
        writtenBlocks := m.writtenBlocks + bytes.length / m.blockSize }, some [])
    else (m, none) := by
  show ((m.write offset bytes).device, answerOfWrite (m.write offset bytes)) = _
  by_cases ha : Aligned offset bytes.length m.blockSize
  · have hnone : m.writeProblem? offset bytes.length = none := by
      rw [Memory.writeProblem?, hw, requireAligned_of_aligned ha]
      rfl
    rw [Memory.write, hnone, if_pos ha]
    rfl
  · have hsome : m.writeProblem? offset bytes.length =
        some (.misaligned offset bytes.length m.blockSize) := by
      rw [Memory.writeProblem?, hw, requireAligned_of_not_aligned ha]
      rfl
    rw [Memory.write, hsome, if_neg ha]
    rfl

theorem transfer_file_read (hl : offset + len < File.offsetLimit) : transfer f (.read offset len) =
    (f, if Aligned offset len f.blockSize ∧ (len = 0 ∨ offset + len ≤ f.contents.size) then
      some (f.contents.slice offset len) else none) := by
  show ((f.read offset len).device, answerOfRead (f.read offset len)) = _
  by_cases ha : Aligned offset len f.blockSize
  · rw [File.read, File.transferProblem?_eq_none ha hl]
    by_cases hin : len = 0 ∨ offset + len ≤ f.contents.size
    · dsimp only
      rw [if_neg (by omega), if_pos ⟨ha, hin⟩]
      rfl
    · dsimp only
      rw [if_pos (by omega), if_neg fun h => hin h.2]
      rfl
  · have hsome : f.transferProblem? offset len = some (.misaligned offset len f.blockSize) := by
      rw [File.transferProblem?, requireAligned_of_not_aligned ha]
    rw [File.read, hsome]
    dsimp only
    rw [if_neg fun h => ha h.1]
    rfl

theorem transfer_file_write (hl : offset + bytes.length < File.offsetLimit) :
    transfer f (.write offset bytes) =
      if Aligned offset bytes.length f.blockSize then
        (if bytes = [] then f else { f with contents := f.contents.overwrite offset bytes }, some [])
      else (f, none) := by
  show ((f.write offset bytes).device, answerOfWrite (f.write offset bytes)) = _
  by_cases ha : Aligned offset bytes.length f.blockSize
  · rw [File.write, File.transferProblem?_eq_none ha hl, if_pos ha]
    dsimp only
    split <;> rfl
  · have hsome : f.transferProblem? offset bytes.length =
        some (.misaligned offset bytes.length f.blockSize) := by
      rw [File.transferProblem?, requireAligned_of_not_aligned ha]
    rw [File.write, hsome, if_neg ha]
    rfl

end

/-! ### One transfer on both -/

/-- The two contain the same, up to the end of what has been touched, and no fault is set. -/
structure Matches (m : Memory) (f : File) (touched : Nat) : Prop where
  blockSize_eq : f.blockSize = m.blockSize
  contents_eq : f.contents.toList = m.contents.toList
  length_eq : m.length = touched
  writes : m.refusesWrites = false
  reads : m.refusesReads = false

namespace Matches

variable {m : Memory} {f : File} {touched offset len : Nat} {bytes : Bytes} {t : Transfer}

theorem size_eq (h : Matches m f touched) : f.contents.size = touched := by
  rw [← h.length_eq, Memory.length, ← Store.length_toList, h.contents_eq, Store.length_toList]

/-- A read that is not an empty one behind the end is answered the same by both. -/
theorem read (h : Matches m f touched) (hl : offset + len < File.offsetLimit)
    (hs : ¬ (Transfer.read offset len).Strays m.blockSize touched) :
    (transfer m (.read offset len)).2 = (transfer f (.read offset len)).2 ∧
      Matches (transfer m (.read offset len)).1 (transfer f (.read offset len)).1 touched := by
  have hslice : m.contents.slice offset len = f.contents.slice offset len := by
    rw [Store.slice_eq, Store.slice_eq, h.contents_eq]
  have hiff : Aligned offset len f.blockSize ∧ (len = 0 ∨ offset + len ≤ f.contents.size) ↔
      Aligned offset len m.blockSize ∧ offset + len ≤ m.length := by
    rw [h.blockSize_eq, h.size_eq, h.length_eq]
    refine and_congr_right fun ha => ⟨fun hin => ?_, .inr⟩
    rcases hin with rfl | hin
    · exact Nat.not_lt.1 fun hlt => hs ⟨rfl, ha, hlt⟩
    · exact hin
  rw [transfer_memory_read h.reads, transfer_file_read hl]
  simp only [hiff]
  split
  · exact ⟨congrArg some hslice, ⟨h.blockSize_eq, h.contents_eq, h.length_eq, h.writes, h.reads⟩⟩
  · exact ⟨rfl, h⟩

/-- A write that is not an empty one behind the end does the same to both. -/
theorem write (h : Matches m f touched) (hl : offset + bytes.length < File.offsetLimit)
    (hs : ¬ (Transfer.write offset bytes).Strays m.blockSize touched) :
    (transfer m (.write offset bytes)).2 = (transfer f (.write offset bytes)).2 ∧
      Matches (transfer m (.write offset bytes)).1 (transfer f (.write offset bytes)).1
        (max touched ((Transfer.write offset bytes).reach m.blockSize)) := by
  rw [transfer_memory_write h.writes, transfer_file_write hl, Transfer.reach]
  by_cases ha : Aligned offset bytes.length m.blockSize
  · rw [if_pos ha, if_pos (by rwa [h.blockSize_eq])]
    by_cases hnil : bytes = []
    · -- an empty write inside changes nothing in memory either
      subst hnil
      have hin : offset ≤ m.contents.size := by
        rw [← Memory.length, h.length_eq]
        exact Nat.not_lt.1 fun hlt => hs ⟨rfl, ha, hlt⟩
      rw [if_pos rfl, if_neg fun hr => hr.1 rfl, Nat.max_eq_left (Nat.zero_le _), Store.overwrite_nil hin]
      exact ⟨rfl, ⟨h.blockSize_eq, h.contents_eq, h.length_eq, h.writes, h.reads⟩⟩
    · rw [if_neg hnil, if_pos ⟨hnil, ha⟩]
      refine ⟨rfl, ⟨h.blockSize_eq, ?_, ?_, h.writes, h.reads⟩⟩
      · show (f.contents.overwrite offset bytes).toList = (m.contents.overwrite offset bytes).toList
        rw [Store.toList_overwrite, Store.toList_overwrite, h.contents_eq]
      · show (m.contents.overwrite offset bytes).size = _
        rw [Store.size_overwrite, ← Memory.length, h.length_eq]
  · rw [if_neg ha, if_neg (by rwa [h.blockSize_eq]), if_neg fun hr => ha hr.2,
      Nat.max_eq_left (Nat.zero_le _)]
    exact ⟨rfl, h⟩

theorem transfer (h : Matches m f touched) (hl : t.offset + t.length < File.offsetLimit)
    (hs : ¬ t.Strays m.blockSize touched) :
    (Device.transfer m t).2 = (Device.transfer f t).2 ∧
      Matches (Device.transfer m t).1 (Device.transfer f t).1 (max touched (t.reach m.blockSize)) := by
  cases t with
  | read offset len =>
    rw [Transfer.reach, Nat.max_eq_left (Nat.zero_le _)]
    exact h.read hl hs
  | write offset bytes => exact h.write hl hs

/-- At an empty transfer behind the end the two part: a read is refused by the device in memory, and a
    write makes it longer than what has been touched. -/
theorem not_agree_of_strays (h : Matches m f touched) (hl : t.offset + t.length < File.offsetLimit)
    (hs : t.Strays m.blockSize touched) : (Device.transfer m t).2 ≠ (Device.transfer f t).2 ∨
      (Device.transfer m t).1.length ≠ max touched (t.reach m.blockSize) := by
  obtain ⟨hempty, ha, hlt⟩ := hs
  cases t with
  | read offset len =>
    cases hempty
    left
    replace ha : Aligned offset 0 m.blockSize := ha
    replace hlt : touched < offset := hlt
    replace hl : offset + 0 < File.offsetLimit := hl
    have hf : Aligned offset 0 f.blockSize ∧ (0 = 0 ∨ offset + 0 ≤ f.contents.size) :=
      ⟨by rwa [h.blockSize_eq], .inl rfl⟩
    rw [transfer_memory_read h.reads, transfer_file_read hl, if_pos hf, if_neg]
    · exact nofun
    · rw [h.length_eq]
      omega
  | write offset bytes =>
    cases List.eq_nil_of_length_eq_zero hempty
    right
    replace ha : Aligned offset ([] : Bytes).length m.blockSize := ha
    rw [transfer_memory_write h.writes, if_pos ha, Transfer.reach, if_neg fun hr => hr.1 rfl]
    show (m.contents.overwrite offset []).size ≠ _
    rw [Store.size_overwrite, ← Memory.length, h.length_eq]
    replace hlt : touched < offset := hlt
    simp only [List.length_nil]
    omega

end Matches

/-! ### Any number of transfers -/

theorem Matches.agree_iff (ts : List Transfer) : ∀ {m : Memory} {f : File} {touched : Nat},
    Matches m f touched → (∀ t ∈ ts, t.offset + t.length < File.offsetLimit) →
    (Agree m f touched ts ↔ ¬ SomeStrays m.blockSize touched ts) := by
  induction ts with
  | nil => exact fun _ _ => ⟨fun _ h => h, fun _ => trivial⟩
  | cons t ts ih =>
    intro m f touched h hl
    have hlt := hl t (List.mem_cons_self ..)
    by_cases hs : t.Strays m.blockSize touched
    · refine ⟨fun hagree => ?_, fun hn => absurd (.inl hs) hn⟩
      obtain ⟨hanswer, -, hlength, -⟩ := hagree
      rcases h.not_agree_of_strays hlt hs with hne | hne
      · exact absurd hanswer hne
      · exact absurd hlength hne
    · obtain ⟨hanswer, hnext⟩ := h.transfer hlt hs
      have hbs : (Device.transfer m t).1.blockSize = m.blockSize := blockSize_transfer m t
      have hrest := ih hnext fun t' ht' => hl t' (List.mem_cons_of_mem _ ht')
      rw [hbs] at hrest
      rw [Agree, SomeStrays, not_or, hrest]
      exact ⟨fun ⟨_, _, _, hr⟩ => ⟨hs, hr⟩,
        fun ⟨_, hr⟩ => ⟨hanswer, hnext.contents_eq.symm, hnext.length_eq, hr⟩⟩

/-- A device in memory and an empty file, asked for the same transfers, agree after each of them on its
    answer and on what they contain, up to the end of the space touched by then, exactly when none of
    the transfers is an empty one that starts behind that end. -/
theorem memory_agrees_with_file_iff {blockSize : Nat} (path : String) (location : Location)
    (ts : List Transfer) (hl : ∀ t ∈ ts, t.offset + t.length < File.offsetLimit) :
    Agree { blockSize := blockSize }
      { path := path, location := location, blockSize := blockSize, contents := .ofList [] } 0 ts ↔
    ¬ SomeStrays blockSize 0 ts :=
  Matches.agree_iff ts ⟨rfl, rfl, rfl, rfl, rfl⟩ hl

/-- A gap, a block written over, a read across the end, an empty write inside and an empty read right at
    the end. -/
theorem memory_agrees_with_file_iff_gap : ∃ ts : List Transfer,
    (∀ t ∈ ts, t.offset + t.length < File.offsetLimit) ∧
    ts = [.write 4 [1, 2], .read 0 6, .write 0 [3, 4], .write 3 [5, 6], .read 4 4, .write 2 [],
      .read 6 0] ∧
    Agree { blockSize := 2 }
      { path := "log", location := ["log"], blockSize := 2, contents := .ofList [] } 0 ts := by
  have hl : ∀ t ∈ [Transfer.write 4 [1, 2], .read 0 6, .write 0 [3, 4], .write 3 [5, 6], .read 4 4,
      .write 2 [], .read 6 0], t.offset + t.length < File.offsetLimit := by decide +kernel
  exact ⟨_, hl, rfl, (memory_agrees_with_file_iff "log" ["log"] _ hl).2 (by decide +kernel)⟩

/-- An empty write behind the end: the device in memory grows over space that nothing has touched, the
    file stays empty. An empty read there is refused by the one and does nothing in the other. -/
theorem memory_disagrees_on_empty :
    ¬ Agree { blockSize := 4 }
      { path := "log", location := ["log"], blockSize := 4, contents := .ofList [] } 0
      [.write 4 []] ∧
    (transfer ({ blockSize := 4 } : Memory) (.write 4 [])).1.length = 4 ∧
    (transfer ({ path := "log", location := ["log"], blockSize := 4, contents := .ofList [] } : File)
      (.write 4 [])).1.contents.size = 0 ∧
    (transfer ({ blockSize := 4 } : Memory) (.read 4 0)).2 = none ∧
    (transfer ({ path := "log", location := ["log"], blockSize := 4, contents := .ofList [] } : File)
      (.read 4 0)).2 = some [] := by
  refine ⟨fun h => absurd h.2.2.1 (by decide +kernel), by decide +kernel, by decide +kernel,
    by decide +kernel, by decide +kernel⟩

end BlockLog.Device
