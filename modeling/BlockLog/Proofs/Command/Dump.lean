import BlockLog.Command
import BlockLog.Proofs.Command.Session
import BlockLog.Proofs.HexDump

/-! The dump shows the bytes of its window, and all of them. The window is the range that was asked for,
    widened to whole blocks, whatever size these have; so the device never turns its read down as misaligned,
    and the dump goes through where there is nothing to read or the file reaches so far.

        file:    ┌──────────────┬─ start ── offset ── offset + len ── stop ─┬──────┐
        blocks:  ├──────────────┼──────────────┼──────────────┼─────────────┼──────┘
        rows:                   ├ 16 ┼ 16 ┼ 16 ┼ 16 ┼ …              ┼ ≤ 16 ┤

    A row need not end with a block, for sixteen need not divide the block size or the other way around. -/

namespace BlockLog

namespace Command

/-! ### The window -/

/-- A window has the range and is made of whole blocks, and no block of it is without a reason: each end is
    less than a block away from that of the range. -/
structure Window.Rounds (w : Window) (blockSize offset len : Nat) : Prop where
  start_aligned : blockSize ∣ w.start
  start_le : w.start ≤ offset
  offset_lt : offset < w.start + blockSize
  stop_aligned : blockSize ∣ w.stop
  le_stop : offset + len ≤ w.stop
  stop_lt : w.stop < offset + len + blockSize
  size_lt : w.size < len + 2 * blockSize

theorem window_rounds {blockSize : Nat} (hpos : 0 < blockSize) (offset len : Nat) :
    (window blockSize offset len).Rounds blockSize offset len := by
  have hstart := Nat.mod_lt offset hpos
  have hle := Nat.mod_le offset blockSize
  have hgap := Bytes.gap_lt hpos (offset + len)
  have hstop : (window blockSize offset len).stop =
      offset + len + Bytes.gap blockSize (offset + len) := by
    rw [Bytes.add_gap_eq hpos, Nat.add_sub_assoc hpos]
    rfl
  have hsize : (window blockSize offset len).size =
      offset + len + Bytes.gap blockSize (offset + len) - (offset - offset % blockSize) := by
    rw [← hstop]
    rfl
  constructor
  case start_aligned => exact Nat.dvd_sub_mod offset
  case start_le => exact Nat.sub_le ..
  case offset_lt =>
    simp only [window]
    omega
  case stop_aligned => exact Nat.dvd_mul_left ..
  case le_stop => omega
  case stop_lt => omega
  case size_lt => omega

namespace Window.Rounds

variable {w : Window} {blockSize offset len : Nat}

theorem start_le_stop (h : w.Rounds blockSize offset len) : w.start ≤ w.stop := by
  have := h.start_le
  have := h.le_stop
  omega

theorem aligned (h : w.Rounds blockSize offset len) (hpos : 0 < blockSize) :
    Aligned w.start w.size blockSize :=
  ⟨Nat.ne_of_gt hpos, Nat.mod_eq_zero_of_dvd h.start_aligned,
    Nat.mod_eq_zero_of_dvd (Nat.dvd_sub h.stop_aligned h.start_aligned)⟩

/-- The read of the window is not misaligned, wherever the window lies and whatever the file contains. -/
theorem read_ne_misaligned (h : w.Rounds blockSize offset len) (hpos : 0 < blockSize)
    {device : Device.File} (hsize : device.blockSize = blockSize) (start count size : Nat) :
    (device.read w.start w.size).outcome ≠ .error (.misaligned start count size) := by
  have hrequest : requireAligned w.start w.size device.blockSize = .ok () :=
    Device.requireAligned_of_aligned (hsize ▸ h.aligned hpos)
  intro hread
  rw [Device.File.read, Device.File.transferProblem?, hrequest] at hread
  dsimp only at hread
  split at hread
  · rename_i hproblem
    split at hproblem <;> cases hproblem
    cases hread
  · split at hread <;> cases hread

end Window.Rounds

/-! ### The command -/

variable {files tree : FileTree} {path : String} {settings : Settings} {location : Location}
  {contents : Bytes} {offset len : Nat}

/-- The read of a window brings its bytes where there are none or the file has them all, and breaks off
    anywhere else. -/
theorem dumpRows_eq (hpos : 0 < settings.fileBlockSize) {w : Window}
    (hw : w.Rounds settings.fileBlockSize offset len) (hstop : w.stop < Device.File.offsetLimit) :
    dumpRows (found path location settings contents) w =
      if w.start = w.stop ∨ w.stop ≤ contents.length then
        .ok (HexDump.rows w.start (contents.slice w.start w.size))
      else .error (.io .shortRead) := by
  have hle := hw.start_le_stop
  have hsize : w.size = w.stop - w.start := rfl
  have hproblem : (found path location settings contents).transferProblem? w.start w.size = none :=
    Device.File.transferProblem?_eq_none (hw.aligned hpos) (by omega)
  have hfound : (found path location settings contents).contents.toList = contents :=
    Store.toList_ofList contents
  simp only [dumpRows, Device.File.read, hproblem, ← Store.length_toList, Store.slice_eq, hfound]
  by_cases hreaches : w.start = w.stop ∨ w.stop ≤ contents.length
  · rw [if_pos hreaches, if_neg (by omega)]
    rfl
  · rw [if_neg hreaches, if_pos (by omega)]
    rfl

/-- The dump of a window below the last position of a file. -/
theorem dump_eq (hfile : files.openFile path settings.create = .ok (tree, location, .file contents))
    (hpos : 0 < settings.fileBlockSize) {w : Window}
    (hw : window settings.fileBlockSize offset len = w) (hstop : w.stop < Device.File.offsetLimit) :
    dump files path settings offset len =
      if w.start = w.stop ∨ w.stop ≤ contents.length then
        { files := tree
          lines := (HexDump.rows w.start (contents.slice w.start w.size)).map String.ofList
          ending := .success }
      else { files := tree, lines := [], ending := .failure (.log (.device (.io .shortRead))) } := by
  have hopen : Device.File.openAt files path settings =
      .ok (tree, found path location settings contents) := by
    simp only [Device.File.openAt, hfile]
    rfl
  have hblockSize : (found path location settings contents).blockSize = settings.fileBlockSize := rfl
  have hlimit : Device.File.offsetLimit = allocationLimit + 1 := by decide
  have hsize : w.size ≤ w.stop := Nat.sub_le ..
  simp only [dump, hopen, hblockSize, hw, dumpRows_eq hpos (hw ▸ window_rounds hpos offset len) hstop]
  rw [if_neg (by omega)]
  by_cases hreaches : w.start = w.stop ∨ w.stop ≤ contents.length
  · simp only [if_pos hreaches]
  · simp only [if_neg hreaches]

/-- What a dump of a window comes to: the files as they were opened, and the rows of the window if it can be
    read. -/
structure Dumps (tree : FileTree) (contents : Bytes) (w : Window) (report : Report) : Prop where
  files : report.files = tree
  success_iff : report.ending = .success ↔ w.start = w.stop ∨ w.stop ≤ contents.length
  rows : report.ending = .success → ∃ lines, HexDump.Shows w.start (contents.slice w.start w.size)
    (report.lines.map String.toList) lines
  failure : report.ending ≠ .success →
    report.ending = .failure (.log (.device (.io .shortRead))) ∧ report.lines = []

/-- A dump prints exactly its window.

    Over any regular file and with any block size but zero, the window is the range that was asked for, both
    ends rounded to whole blocks, and the device does not find its read misaligned. The command is a success
    if and only if the window is empty or ends within the file. Then its rows read back as the bytes of the
    window, sixteen to a row but for the last, each row with its address and its bytes as text. Otherwise it
    prints nothing. -/
theorem dump_shows_window (hfile : files.openFile path settings.create = .ok (tree, location, .file contents))
    (hpos : 0 < settings.fileBlockSize)
    (hstop : (window settings.fileBlockSize offset len).stop < Device.File.offsetLimit) :
    (window settings.fileBlockSize offset len).Rounds settings.fileBlockSize offset len ∧
    (∀ device : Device.File, device.blockSize = settings.fileBlockSize → ∀ start count size,
      (device.read (window settings.fileBlockSize offset len).start
        (window settings.fileBlockSize offset len).size).outcome ≠
          .error (.misaligned start count size)) ∧
    Dumps tree contents (window settings.fileBlockSize offset len)
      (perform files { device := path, settings, task := .dump offset len }) := by
  have hw := window_rounds hpos offset len
  refine ⟨hw, fun device hsize => hw.read_ne_misaligned hpos hsize, ?_⟩
  generalize hwindow : window settings.fileBlockSize offset len = w at hstop
  have hdump : perform files { device := path, settings, task := .dump offset len } =
      dump files path settings offset len := rfl
  rw [hdump, dump_eq hfile hpos hwindow hstop]
  by_cases hreaches : w.start = w.stop ∨ w.stop ≤ contents.length
  · have hid : String.toList ∘ String.ofList = id := funext fun _ => String.toList_ofList
    have hshows := HexDump.shows_rows w.start (contents.slice w.start w.size)
    rw [← List.map_id (HexDump.rows ..), ← hid, ← List.map_map] at hshows
    rw [if_pos hreaches]
    exact ⟨rfl, iff_of_true rfl hreaches, fun _ => ⟨_, hshows⟩, fun hfailed => absurd rfl hfailed⟩
  · rw [if_neg hreaches]
    exact ⟨rfl, iff_of_false (by simp) hreaches, fun hok => (by cases hok), fun _ => ⟨rfl, rfl⟩⟩

/-- Blocks of six bytes, and a range from the second one into the fourth. Its window is cut into rows where no
    block ends, and most of its bytes are no characters. -/
theorem dump_shows_window_uneven : ∃ files contents,
    contents = (List.range 26).map (fun i => UInt8.ofNat (64 + 7 * i)) ∧
    FileTree.openFile files "d" false = .ok (files, ["d"], .file contents) ∧
    window 6 7 12 = { start := 6, stop := 24 } ∧
    Dumps files contents (window 6 7 12)
      (perform files { device := "d", settings := { blockSize := some 6 }, task := .dump 7 12 }) ∧
    (perform files { device := "d", settings := { blockSize := some 6 }, task := .dump 7 12 }).lines =
      ["00000006  6a 71 78 7f 86 8d 94 9b a2 a9 b0 b7 be c5 cc d3  jqx.............",
       "00000016  da e1                                            .."] := by
  let contents : Bytes := (List.range 26).map fun i => UInt8.ofNat (64 + 7 * i)
  let files : FileTree := { working := [], entries := [(["d"], .file contents)] }
  have hfile : FileTree.openFile files "d" (Settings.create { blockSize := some 6 }) =
      .ok (files, ["d"], .file contents) := rfl
  have hpos : 0 < Settings.fileBlockSize { blockSize := some 6 } := by decide
  have hstop : (window 6 7 12).stop < Device.File.offsetLimit := by decide
  exact ⟨files, contents, rfl, hfile, rfl, (dump_shows_window hfile hpos hstop).2.2, by decide +kernel⟩

end Command

end BlockLog
