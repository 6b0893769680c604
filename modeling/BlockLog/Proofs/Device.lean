import BlockLog.Device.Faulty
import BlockLog.Device.File
import BlockLog.Device.Memory
import BlockLog.Proofs.Image

/-! What a log may rely on. A device has contents; a call either does to them what it is for or fails
    and leaves them alone, whatever else it changes about the device. When a call fails is up to the
    device, call by call, so a theorem about every lawful device is one about every pattern of
    faults. A device that is `Faultless` fails no call that makes sense: whole blocks, inside the
    contents if it is a read, and not behind the last position that can be addressed at all. -/

namespace BlockLog

/-- A device whose calls do what they are for, or fail and leave the contents alone. -/
class LawfulDevice (δ : Type) [Device δ] where
  contents : δ → Bytes
  /-- No fault is set. -/
  Faultless : δ → Prop
  /-- A transfer may end at this position. -/
  Reaches : Nat → Prop
  blockSize_write (d : δ) (offset : Nat) (bytes : Bytes) :
    Device.blockSize (Device.write d offset bytes).device = Device.blockSize d
  contents_of_write_done (d : δ) (offset : Nat) (bytes : Bytes) (hne : bytes ≠ [])
    (h : (Device.write d offset bytes).outcome = .done) :
    contents (Device.write d offset bytes).device = (contents d).overwrite offset bytes
  contents_of_write_failed (d : δ) (offset : Nat) (bytes : Bytes)
    (h : (Device.write d offset bytes).outcome ≠ .done) :
    contents (Device.write d offset bytes).device = contents d
  write_done (d : δ) (offset : Nat) (bytes : Bytes) (hd : Faultless d)
    (ha : Aligned offset bytes.length (Device.blockSize d)) (hr : Reaches (offset + bytes.length)) :
    (Device.write d offset bytes).outcome = .done
  blockSize_read (d : δ) (offset len : Nat) :
    Device.blockSize (Device.read d offset len).device = Device.blockSize d
  contents_read (d : δ) (offset len : Nat) : contents (Device.read d offset len).device = contents d
  bytes_of_read_ok (d : δ) (offset len : Nat) (h : (Device.read d offset len).outcome = .ok ()) :
    (Device.read d offset len).bytes = (contents d).slice offset len ∧
      (Device.read d offset len).bytes.length = len
  read_ok (d : δ) (offset len : Nat) (hd : Faultless d)
    (ha : Aligned offset len (Device.blockSize d)) (hl : offset + len ≤ (contents d).length)
    (hr : Reaches (offset + len)) : (Device.read d offset len).outcome = .ok ()
  blockSize_sync (d : δ) : Device.blockSize (Device.sync d).device = Device.blockSize d
  contents_sync (d : δ) : contents (Device.sync d).device = contents d
  sync_ok (d : δ) (hd : Faultless d) : (Device.sync d).outcome = .ok ()

namespace Device

open LawfulDevice

theorem requireAligned_of_aligned {offset len blockSize : Nat} (h : Aligned offset len blockSize) :
    requireAligned offset len blockSize = .ok () := if_pos h

/-! ### Memory -/

namespace Memory

theorem write_eq (d : Memory) (offset : Nat) (bytes : Bytes) :
    (∃ e, d.write offset bytes = { device := d, outcome := .failed e }) ∨
    d.write offset bytes =
      { device := { d with
          contents := d.contents.overwrite offset bytes
          writtenBlocks := d.writtenBlocks + bytes.length / d.blockSize }
        outcome := .done } := by
  unfold write
  split
  · exact .inl ⟨_, rfl⟩
  · exact .inr rfl

theorem read_eq (d : Memory) (offset len : Nat) :
    (∃ e, d.read offset len = { device := d, bytes := [], outcome := .error e }) ∨
    (offset + len ≤ d.length ∧ d.read offset len =
      { device := { d with readBlocks := d.readBlocks + len / d.blockSize }
        bytes := d.contents.slice offset len
        outcome := .ok () }) := by
  unfold read
  split
  · exact .inl ⟨_, rfl⟩
  · rename_i h
    refine .inr ⟨?_, rfl⟩
    unfold readProblem? at h
    split at h
    · cases h
    · split at h
      · cases h
      · split at h
        · cases h
        · omega

instance : LawfulDevice Memory where
  contents d := d.contents.toList
  Faultless d := d.refusesWrites = false ∧ d.refusesReads = false
  Reaches _ := True
  blockSize_write d offset bytes := by
    rcases write_eq d offset bytes with ⟨e, he⟩ | he <;> exact congrArg (·.device.blockSize) he
  contents_of_write_done d offset bytes _ h := by
    rcases write_eq d offset bytes with ⟨e, he⟩ | he
    · rw [show Device.write d offset bytes = _ from he] at h
      cases h
    · rw [show Device.write d offset bytes = _ from he, Store.toList_overwrite]
  contents_of_write_failed d offset bytes h := by
    rcases write_eq d offset bytes with ⟨e, he⟩ | he
    · rw [show Device.write d offset bytes = _ from he]
    · rw [show Device.write d offset bytes = _ from he] at h
      exact absurd rfl h
  write_done d offset bytes hd ha _ := by
    have hreq : requireAligned offset bytes.length d.blockSize = .ok () :=
      requireAligned_of_aligned ha
    show (write d offset bytes).outcome = .done
    rw [write, writeProblem?, hd.1, hreq]
    rfl
  blockSize_read d offset len := by
    rcases read_eq d offset len with ⟨e, he⟩ | ⟨_, he⟩ <;> exact congrArg (·.device.blockSize) he
  contents_read d offset len := by
    rcases read_eq d offset len with ⟨e, he⟩ | ⟨_, he⟩ <;>
      exact congrArg (·.device.contents.toList) he
  bytes_of_read_ok d offset len h := by
    rcases read_eq d offset len with ⟨e, he⟩ | ⟨hl, he⟩
    · rw [show Device.read d offset len = _ from he] at h
      cases h
    · rw [show Device.read d offset len = _ from he, Store.slice_eq, Bytes.length_slice]
      exact ⟨rfl, by rw [Store.length_toList]; unfold length at hl; omega⟩
  read_ok d offset len hd ha hl _ := by
    have hreq : requireAligned offset len d.blockSize = .ok () := requireAligned_of_aligned ha
    have hlen : ¬ d.length < offset + len := Nat.not_lt.2 hl
    show (read d offset len).outcome = .ok ()
    rw [read, readProblem?, hd.2, hreq]
    simp [hlen]
  blockSize_sync _ := rfl
  contents_sync _ := rfl
  sync_ok _ _ := rfl

end Memory

/-! ### A file -/

namespace File

theorem write_eq (d : File) (offset : Nat) (bytes : Bytes) (hne : bytes ≠ []) :
    (∃ e, d.write offset bytes = { device := d, outcome := .failed e }) ∨
    d.write offset bytes =
      { device := { d with contents := d.contents.overwrite offset bytes }, outcome := .done } := by
  unfold write
  split
  · exact .inl ⟨_, rfl⟩
  · rw [if_neg hne]
    exact .inr rfl

theorem device_write (d : File) (offset : Nat) (bytes : Bytes) :
    (d.write offset bytes).device = d ∨
    (d.write offset bytes).outcome = .done ∧ (d.write offset bytes).device.blockSize = d.blockSize := by
  unfold write
  split
  · exact .inl rfl
  · split
    · exact .inl rfl
    · exact .inr ⟨rfl, rfl⟩

theorem read_eq (d : File) (offset len : Nat) :
    (d.read offset len).device = d ∧
    ((d.read offset len).outcome = .ok () →
      (d.read offset len).bytes = d.contents.slice offset len ∧
        (len = 0 ∨ offset + len ≤ d.contents.size)) := by
  unfold read
  split
  · exact ⟨rfl, fun h => by cases h⟩
  · split
    · exact ⟨rfl, fun h => by cases h⟩
    · exact ⟨rfl, fun _ => ⟨rfl, by omega⟩⟩

theorem transferProblem?_eq_none {d : File} {offset len : Nat} (ha : Aligned offset len d.blockSize)
    (hr : offset + len < offsetLimit) : d.transferProblem? offset len = none := by
  rw [transferProblem?, requireAligned_of_aligned ha]
  exact if_neg fun h => absurd h.2 (Nat.not_le.2 hr)

instance : LawfulDevice File where
  contents d := d.contents.toList
  Faultless _ := True
  Reaches n := n < offsetLimit
  blockSize_write d offset bytes := by
    rcases device_write d offset bytes with h | h
    · exact congrArg blockSize h
    · exact h.2
  contents_of_write_done d offset bytes hne h := by
    rcases write_eq d offset bytes hne with ⟨e, he⟩ | he
    · rw [show Device.write d offset bytes = _ from he] at h
      cases h
    · rw [show Device.write d offset bytes = _ from he, Store.toList_overwrite]
  contents_of_write_failed d offset bytes h := by
    rcases device_write d offset bytes with hd | hd
    · exact congrArg (·.contents.toList) hd
    · exact absurd hd.1 h
  write_done d offset bytes _ ha hr := by
    show (write d offset bytes).outcome = .done
    rw [write, transferProblem?_eq_none ha hr]
    dsimp only
    split <;> rfl
  blockSize_read d offset len := congrArg blockSize (read_eq d offset len).1
  contents_read d offset len := congrArg (·.contents.toList) (read_eq d offset len).1
  bytes_of_read_ok d offset len h := by
    obtain ⟨hb, hl⟩ := (read_eq d offset len).2 h
    rw [show (Device.read d offset len).bytes = _ from hb, Store.slice_eq, Bytes.length_slice,
      Store.length_toList]
    exact ⟨rfl, by omega⟩
  read_ok d offset len _ ha hl hr := by
    have hlen : ¬ (len ≠ 0 ∧ d.contents.size < offset + len) := fun h => Nat.not_lt.2 hl h.2
    show (read d offset len).outcome = .ok ()
    rw [read, transferProblem?_eq_none ha hr]
    dsimp only
    rw [if_neg hlen]
  blockSize_sync _ := rfl
  contents_sync _ := rfl
  sync_ok _ _ := rfl

end File

/-! ### Faults laid over a device -/

namespace Faulty

variable {δ : Type} [Device δ]

/-- A write under faults fails before it gets to the device below, or is a write to that. -/
theorem write_eq (d : Faulty δ) (offset : Nat) (bytes : Bytes) :
    ((d.write offset bytes).device = d ∧ (d.write offset bytes).outcome ≠ .done) ∨
    ((d.write offset bytes).device.base = (Device.write d.base offset bytes).device ∧
      (d.write offset bytes).outcome = (Device.write d.base offset bytes).outcome) := by
  unfold write
  split
  · exact .inl ⟨rfl, by simp⟩
  · split
    · exact .inr ⟨rfl, rfl⟩
    · exact .inl ⟨rfl, by simp⟩
    · exact .inr ⟨rfl, rfl⟩

/-- A read under faults fails before it gets to the device below, or is a read of that. -/
theorem read_eq (d : Faulty δ) (offset len : Nat) :
    ((d.read offset len).device = d ∧ (d.read offset len).outcome ≠ .ok ()) ∨
    ((d.read offset len).device.base = (Device.read d.base offset len).device ∧
      (d.read offset len).bytes = (Device.read d.base offset len).bytes ∧
      (d.read offset len).outcome = (Device.read d.base offset len).outcome) := by
  unfold read
  split
  · exact .inr ⟨rfl, rfl, rfl⟩
  · exact .inl ⟨rfl, by simp⟩
  · exact .inr ⟨rfl, rfl, rfl⟩

theorem sync_eq (d : Faulty δ) :
    d.sync.device = d ∨ d.sync.device.base = (Device.sync d.base).device := by
  unfold sync
  split
  · exact .inl rfl
  · exact .inr rfl

instance [LawfulDevice δ] : LawfulDevice (Faulty δ) where
  contents d := contents d.base
  Faultless d := d.faults = {} ∧ Faultless d.base
  Reaches := Reaches δ
  blockSize_write d offset bytes := by
    rcases write_eq d offset bytes with ⟨h, _⟩ | ⟨h, _⟩
    · exact congrArg Device.blockSize h
    · exact (congrArg Device.blockSize h).trans (blockSize_write ..)
  contents_of_write_done d offset bytes hne hd := by
    rcases write_eq d offset bytes with ⟨_, ho⟩ | ⟨h, ho⟩
    · exact absurd hd ho
    · exact (congrArg contents h).trans (contents_of_write_done _ _ _ hne (ho.symm.trans hd))
  contents_of_write_failed d offset bytes hd := by
    rcases write_eq d offset bytes with ⟨h, _⟩ | ⟨h, ho⟩
    · exact congrArg (fun d : Faulty δ => contents d.base) h
    · exact (congrArg contents h).trans
        (contents_of_write_failed _ _ _ fun hb => hd (ho.trans hb))
  write_done d offset bytes hd ha hr := by
    have hw : write d offset bytes = d.writeBelow offset bytes := by
      rw [write, hd.1]
      rfl
    exact (congrArg (·.outcome) hw).trans (write_done d.base offset bytes hd.2 ha hr)
  blockSize_read d offset len := by
    rcases read_eq d offset len with ⟨h, _⟩ | ⟨h, _⟩
    · exact congrArg Device.blockSize h
    · exact (congrArg Device.blockSize h).trans (blockSize_read ..)
  contents_read d offset len := by
    rcases read_eq d offset len with ⟨h, _⟩ | ⟨h, _⟩
    · exact congrArg (fun d : Faulty δ => contents d.base) h
    · exact (congrArg contents h).trans (contents_read ..)
  bytes_of_read_ok d offset len hd := by
    rcases read_eq d offset len with ⟨_, ho⟩ | ⟨_, hb, ho⟩
    · exact absurd hd ho
    · rw [show (Device.read d offset len).bytes = _ from hb]
      exact bytes_of_read_ok _ _ _ (ho.symm.trans hd)
  read_ok d offset len hd ha hl hr := by
    have hw : read d offset len = d.readBelow offset len := by
      rw [read, hd.1]
    exact (congrArg (·.outcome) hw).trans (read_ok d.base offset len hd.2 ha hl hr)
  blockSize_sync d := by
    rcases sync_eq d with h | h
    · exact congrArg Device.blockSize h
    · exact (congrArg Device.blockSize h).trans (blockSize_sync ..)
  contents_sync d := by
    rcases sync_eq d with h | h
    · exact congrArg (fun d : Faulty δ => contents d.base) h
    · exact (congrArg contents h).trans (contents_sync ..)
  sync_ok d hd := by
    show (sync d).outcome = .ok ()
    rw [sync, hd.1]
    exact sync_ok d.base hd.2

end Faulty

end Device

end BlockLog
