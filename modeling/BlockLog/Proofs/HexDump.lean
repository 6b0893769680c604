import BlockLog.HexDump
import Mathlib.Data.List.Forall2

/-! Reading a hex dump back. A row is read by its columns, and a reader has nothing but the characters: the
    address ends at the first blank, the bytes stand in sixteen cells of three characters each, and the text
    is what comes behind them.

        00000010  61 62 63                                         abc
        ├──────┤  ├┤ ├┤ ├┤ ├┤ …                                    ├─┤
        address   cells, blank from the last byte on               text

    The column of the bytes is as wide as sixteen cells without the blank at the end of the last one, so that
    this blank is the first of the two in front of the text. Whatever the bytes are, the rows of a dump read
    back as these bytes, cut into lines of sixteen. -/

namespace BlockLog

/-! ### Numbers -/

namespace Hex

/-- The value of a digit. -/
def value? (c : Char) : Option Nat :=
  if '0' ≤ c ∧ c ≤ '9' then some (c.toNat - 48)
  else if 'a' ≤ c ∧ c ≤ 'f' then some (c.toNat - 87)
  else none

/-- Read digits behind the number read so far. -/
def readFrom? : Nat → List Char → Option Nat
  | n, [] => some n
  | n, c :: rest => (value? c).bind fun d => readFrom? (16 * n + d) rest

/-- The number that digits stand for; without any there is none. -/
def number? (text : List Char) : Option Nat := if text = [] then none else readFrom? 0 text

theorem value?_digit : ∀ {n : Nat}, n < 16 → value? (digit n) = some n := by decide

theorem digit_ne_blank : ∀ {n : Nat}, n < 16 → digit n ≠ ' ' := by decide

theorem readFrom?_append (n : Nat) (front back : List Char) :
    readFrom? n (front ++ back) = (readFrom? n front).bind fun m => readFrom? m back := by
  induction front generalizing n with
  | nil => rfl
  | cons c rest ih =>
    rw [List.cons_append, readFrom?, readFrom?]
    cases value? c with
    | none => rfl
    | some d => exact ih _

theorem readFrom?_digits (n : Nat) : readFrom? 0 (digits n) = some n := by
  fun_induction digits n with
  | case1 n hsmall => simp [readFrom?, value?_digit hsmall]
  | case2 n hlarge ih =>
    have hrest : n % 16 < 16 := Nat.mod_lt n (by omega)
    rw [readFrom?_append, ih]
    simp only [Option.bind_some, readFrom?, value?_digit hrest, Nat.div_add_mod]

theorem readFrom?_zeros (n : Nat) : readFrom? 0 (List.replicate n '0') = some 0 := by
  induction n with
  | zero => rfl
  | succ n ih => exact ih

theorem digits_ne_nil (n : Nat) : digits n ≠ [] := by
  fun_induction digits n <;> simp

theorem ne_blank_of_mem_digits {n : Nat} {c : Char} (h : c ∈ digits n) : c ≠ ' ' := by
  fun_induction digits n with
  | case1 n hsmall =>
    rw [List.mem_singleton.1 h]
    exact digit_ne_blank hsmall
  | case2 n hlarge ih =>
    rcases List.mem_append.1 h with h | h
    · exact ih h
    · rw [List.mem_singleton.1 h]
      exact digit_ne_blank (Nat.mod_lt n (by omega))

theorem ne_blank_of_mem_padded {width n : Nat} {c : Char} (h : c ∈ padded width n) : c ≠ ' ' := by
  rcases List.mem_append.1 h with h | h
  · rw [List.eq_of_mem_replicate h]
    decide
  · exact ne_blank_of_mem_digits h

/-- A padded number reads back, for zeros in front do not count. -/
theorem number?_padded (width n : Nat) : number? (padded width n) = some n := by
  rw [number?, if_neg (by simp [padded, digits_ne_nil]), padded, readFrom?_append, readFrom?_zeros,
    Option.bind_some, readFrom?_digits]

end Hex

namespace HexDump

/-! ### Rows -/

/-- What a row shows. -/
structure Line where
  address : Nat
  bytes : Bytes
  text : List Char

/-- Read cells of two digits and a blank. From the first cell without digits on, all is blank. -/
def readCells? : List Char → Option Bytes
  | [] => some []
  | high :: low :: gap :: rest =>
    if high = ' ' then if (low :: gap :: rest).all (· == ' ') then some [] else none
    else if gap = ' ' then do
      let high ← Hex.value? high
      let low ← Hex.value? low
      let bytes ← readCells? rest
      return UInt8.ofNat (16 * high + low) :: bytes
    else none
  | _ => none

/-- The room that the sixteen cells of a row take up. -/
def cellsWidth : Nat := 48

/-- Read a row by its columns. -/
def readRow? (row : List Char) : Option Line := do
  let address ← Hex.number? (row.takeWhile (· ≠ ' '))
  let columns ← (row.dropWhile (· ≠ ' ')).dropPrefix? [' ', ' ']
  let bytes ← readCells? (columns.take cellsWidth)
  let text ← (columns.drop cellsWidth).dropPrefix? [' ']
  return { address, bytes, text }

/-- How a byte is shown as text: a graphic character as itself, and anything else as a dot. -/
def Depicts (c : Char) (b : UInt8) : Prop :=
  if 0x21 ≤ b.toNat ∧ b.toNat ≤ 0x7e then c.toNat = b.toNat else c = '.'

theorem depicts_glyph (b : UInt8) : Depicts (glyph b) b := by
  have hglyph : glyph b = if 0x21 ≤ b.toNat ∧ b.toNat ≤ 0x7e then Char.ofNat b.toNat else '.' := rfl
  rw [Depicts, hglyph]
  split
  · rename_i hgraphic
    have hvalid : b.toNat.isValidChar := .inl (by omega)
    rw [Char.ofNat, dif_pos hvalid]
    rfl
  · rfl

/-- The cell of a byte. -/
def cell (b : UInt8) : List Char := Hex.byte b ++ [' ']

theorem length_cells (line : Bytes) : (line.flatMap cell).length = 3 * line.length := by
  induction line with
  | nil => rfl
  | cons b bs ih =>
    rw [List.flatMap_cons, List.length_append, ih, List.length_cons]
    simp only [cell, Hex.byte, List.length_append, List.length_cons, List.length_nil]
    omega

/-- With a blank behind it, the column of some bytes is their cells. -/
theorem hexColumn_append_blank {line : Bytes} (h : line ≠ []) :
    hexColumn line ++ [' '] = line.flatMap cell := by
  induction line with
  | nil => exact absurd rfl h
  | cons b bs ih =>
    cases bs with
    | nil => simp [hexColumn, cell, List.intercalate]
    | cons c cs =>
      have hrest := ih (List.cons_ne_nil c cs)
      rw [List.flatMap_cons, ← hrest]
      simp [hexColumn, cell, List.intercalate]

/-- The column of up to sixteen bytes with a blank behind it is sixteen cells. -/
theorem padRight_append_blank {line : Bytes} (h : line.length ≤ rowSize) :
    padRight hexWidth (hexColumn line) ++ [' '] =
      line.flatMap cell ++ List.replicate (3 * (rowSize - line.length)) ' ' := by
  by_cases hnone : line = []
  · subst hnone
    decide
  · have hlen := congrArg List.length (hexColumn_append_blank hnone)
    rw [length_cells, List.length_append, List.length_singleton] at hlen
    have hblanks : List.replicate (hexWidth - (hexColumn line).length) ' ' ++ [' '] =
        ' ' :: List.replicate (3 * (rowSize - line.length)) ' ' := by
      rw [← List.replicate_succ', ← List.replicate_succ]
      congr 1
      simp only [hexWidth, rowSize] at h ⊢
      omega
    rw [padRight, List.append_assoc, hblanks, ← hexColumn_append_blank hnone]
    simp

theorem readCells?_cells (line : Bytes) (blank : Nat) :
    readCells? (line.flatMap cell ++ List.replicate (3 * blank) ' ') = some line := by
  induction line with
  | nil =>
    cases blank with
    | zero => rfl
    | succ blank => simp [Nat.mul_succ, List.replicate_succ, readCells?]
  | cons b bs ih =>
    have hb := b.toNat_lt
    have hhigh : b.toNat / 16 < 16 := by omega
    have hlow : b.toNat % 16 < 16 := by omega
    have hcell : (b :: bs).flatMap cell ++ List.replicate (3 * blank) ' ' =
        Hex.digit (b.toNat / 16) :: Hex.digit (b.toNat % 16) :: ' ' ::
          (bs.flatMap cell ++ List.replicate (3 * blank) ' ') := by
      simp [cell, Hex.byte]
    rw [hcell, readCells?, if_neg (Hex.digit_ne_blank hhigh), if_pos rfl, Hex.value?_digit hhigh,
      Hex.value?_digit hlow, ih]
    simp only [Option.bind_eq_bind, Option.bind_some, Option.pure_def, Nat.div_add_mod, UInt8.ofNat_toNat]

/-- A row reads back. -/
theorem readRow?_row (address : Nat) {line : Bytes} (h : line.length ≤ rowSize) :
    readRow? (row address line) = some { address, bytes := line, text := line.map glyph } := by
  have hdigits : ∀ c ∈ Hex.padded 8 address, decide (c ≠ ' ') = true := fun c hc =>
    decide_eq_true (Hex.ne_blank_of_mem_padded hc)
  obtain ⟨cells, hcells⟩ : ∃ cells,
      cells = line.flatMap cell ++ List.replicate (3 * (rowSize - line.length)) ' ' := ⟨_, rfl⟩
  have hread : readCells? cells = some line := hcells ▸ readCells?_cells line _
  have hwidth : cells.length = cellsWidth := by
    rw [rowSize] at h
    rw [hcells, List.length_append, length_cells, List.length_replicate, cellsWidth, rowSize]
    omega
  have hrow : row address line =
      Hex.padded 8 address ++ (' ' :: ' ' :: (cells ++ ' ' :: line.map glyph)) := by
    rw [row, hcells, ← padRight_append_blank h]
    simp
  rw [readRow?, hrow, List.takeWhile_append_of_pos hdigits, List.dropWhile_append_of_pos hdigits]
  simp [Hex.number?_padded, List.dropPrefix?, List.take_left' hwidth, List.drop_left' hwidth, hread]

/-! ### All rows -/

/-- Lines that follow each other from `address` on. -/
def linesFrom (address : Nat) : List Bytes → List Line
  | [] => []
  | line :: rest =>
    { address, bytes := line, text := line.map glyph } :: linesFrom (address + rowSize) rest

theorem map_bytes_linesFrom (address : Nat) (lines : List Bytes) :
    (linesFrom address lines).map Line.bytes = lines := by
  induction lines generalizing address with
  | nil => rfl
  | cons line rest ih => rw [linesFrom, List.map_cons, ih]

theorem map_address_linesFrom (address : Nat) (lines : List Bytes) :
    (linesFrom address lines).map Line.address =
      (List.range lines.length).map fun i => address + rowSize * i := by
  induction lines generalizing address with
  | nil => rfl
  | cons line rest ih =>
    rw [linesFrom, List.map_cons, ih, List.length_cons, List.range_succ_eq_map, List.map_cons,
      List.map_map]
    refine congrArg (address :: ·) (List.map_congr_left fun i _ => ?_)
    simp only [Function.comp_apply, Nat.succ_eq_add_one, Nat.mul_add, Nat.mul_one]
    omega

theorem text_of_mem_linesFrom {address : Nat} {lines : List Bytes} {line : Line}
    (h : line ∈ linesFrom address lines) : line.text = line.bytes.map glyph := by
  induction lines generalizing address with
  | nil => simp [linesFrom] at h
  | cons first rest ih =>
    rcases List.mem_cons.1 h with rfl | h
    · rfl
    · exact ih h

theorem map_readRow?_rowsFrom (address : Nat) {lines : List Bytes}
    (h : ∀ line ∈ lines, line.length ≤ rowSize) :
    (rowsFrom address lines).map readRow? = (linesFrom address lines).map some := by
  induction lines generalizing address with
  | nil => rfl
  | cons line rest ih =>
    rw [rowsFrom, linesFrom, List.map_cons, List.map_cons, readRow?_row _ (h line List.mem_cons_self),
      ih _ fun line hline => h line (List.mem_cons_of_mem _ hline)]

/-- Rows that a reader takes for these lines show bytes from `start` on: one line after the other, each but
    the last one with sixteen bytes, and each with its bytes as text. -/
structure Shows (start : Nat) (bytes : Bytes) (rows : List (List Char)) (lines : List Line) : Prop where
  read : rows.map readRow? = lines.map some
  address : lines.map Line.address = (List.range lines.length).map fun i => start + 16 * i
  full : ∀ line ∈ lines.dropLast, line.bytes.length = 16
  size : ∀ line ∈ lines, 0 < line.bytes.length ∧ line.bytes.length ≤ 16
  bytes : lines.flatMap Line.bytes = bytes
  text : ∀ line ∈ lines, List.Forall₂ Depicts line.text line.bytes

/-- A dump shows its bytes. -/
theorem shows_rows (start : Nat) (bytes : Bytes) :
    Shows start bytes (rows start bytes) (linesFrom start (bytes.chunks rowSize)) := by
  have hbytes := map_bytes_linesFrom start (bytes.chunks rowSize)
  have hsize : ∀ line ∈ bytes.chunks rowSize, 0 < line.length ∧ line.length ≤ rowSize :=
    fun line hline => Bytes.length_of_mem_pieces (by decide) hline
  constructor
  case read => exact map_readRow?_rowsFrom start fun line hline => (hsize line hline).2
  case address =>
    have hlength := congrArg List.length hbytes
    rw [List.length_map] at hlength
    rw [map_address_linesFrom, hlength, rowSize]
  case full =>
    intro line hline
    have hmem : line.bytes ∈ (bytes.chunks rowSize).dropLast := by
      rw [← hbytes, ← List.map_dropLast]
      exact List.mem_map_of_mem hline
    exact Bytes.length_of_mem_dropLast_pieces hmem
  case size =>
    intro line hline
    refine hsize _ ?_
    rw [← hbytes]
    exact List.mem_map_of_mem hline
  case bytes => rw [List.flatMap_def, hbytes, Bytes.flatten_chunks]
  case text =>
    intro line hline
    rw [text_of_mem_linesFrom hline, List.forall₂_map_left_iff]
    exact List.forall₂_same.2 fun b _ => depicts_glyph b

end HexDump

end BlockLog
