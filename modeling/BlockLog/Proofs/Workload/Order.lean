import BlockLog.Workload

/-! Records that lie one behind the other, and the order they are in. Where they are of one size sorting by
    offset finds them again whatever order they are looked at in, also if they are empty: then they
    are all the same. And an order that keeps each appender's records in turn can be told by giving
    each place the appender and the number of its record.

        appended:   a₀ b₀ b₁ a₁ ─ ─ ─ ─ ─ ─ ─ ─ ─ ▶  (0,0) (1,0) (1,1) (0,1)
        looked at:  a₀ a₁ b₀ b₁ ── by offset ──▶  a₀ b₀ b₁ a₁ -/

namespace BlockLog

/-! ### Records laid out -/

/-- Payloads one behind the other from `start` on. -/
def laidOut (start : Nat) : List Bytes → List Written
  | [] => []
  | payload :: rest => { offset := start, payload } :: laidOut (start + payload.length) rest

@[simp] theorem map_payload_laidOut (start : Nat) (payloads : List Bytes) :
    (laidOut start payloads).map Written.payload = payloads := by
  induction payloads generalizing start with
  | nil => rfl
  | cons payload rest ih => rw [laidOut, List.map_cons, ih]

@[simp] theorem length_laidOut (start : Nat) (payloads : List Bytes) :
    (laidOut start payloads).length = payloads.length := by
  rw [← List.length_map Written.payload, map_payload_laidOut]

theorem laidOut_append (start : Nat) (payloads more : List Bytes) :
    laidOut start (payloads ++ more) =
      laidOut start payloads ++ laidOut (start + payloads.flatten.length) more := by
  induction payloads generalizing start with
  | nil => rfl
  | cons payload rest ih =>
    rw [List.cons_append, laidOut, laidOut, ih, List.flatten_cons, List.length_append, Nat.add_assoc]
    rfl

theorem le_offset_of_mem {start : Nat} {payloads : List Bytes} {w : Written}
    (h : w ∈ laidOut start payloads) : start ≤ w.offset := by
  induction payloads generalizing start with
  | nil => cases h
  | cons payload rest ih =>
    rcases List.mem_cons.1 h with rfl | hrest
    · exact Nat.le_refl _
    · exact Nat.le_trans (Nat.le_add_right ..) (ih hrest)

/-- The walk through them ends behind the last. -/
theorem tile_laidOut (start : Nat) (payloads : List Bytes) :
    tile start (laidOut start payloads) = .ok (start + payloads.flatten.length) := by
  induction payloads generalizing start with
  | nil => rfl
  | cons payload rest ih =>
    rw [laidOut, tile, if_pos rfl, List.flatten_cons, List.length_append, ← Nat.add_assoc]
    exact ih _

/-- Each of them is where it says, in the string that they make up. -/
theorem slice_of_mem {before : Bytes} {payloads : List Bytes} {w : Written}
    (h : w ∈ laidOut before.length payloads) :
    w.stop ≤ (before ++ payloads.flatten).length ∧
      (before ++ payloads.flatten).slice w.offset w.payload.length = w.payload := by
  induction payloads generalizing before with
  | nil => cases h
  | cons payload rest ih =>
    rcases List.mem_cons.1 h with rfl | hrest
    · refine ⟨?_, ?_⟩
      · rw [List.flatten_cons, List.length_append, List.length_append]
        show before.length + payload.length ≤ _
        omega
      · rw [List.flatten_cons, Bytes.slice, List.drop_left, List.take_left]
    · rw [List.flatten_cons, ← List.append_assoc]
      exact ih (by rw [List.length_append]; exact hrest)

/-- Where all are of one size they are at its multiples. -/
theorem map_bounds_laidOut {size : Nat} (payloads : List Bytes) (h : ∀ p ∈ payloads, p.length = size) :
    ∀ start, (laidOut start payloads).map (fun w => (w.offset, w.payload.length)) =
      (List.range payloads.length).map fun k => (start + k * size, size) := by
  induction payloads with
  | nil => exact fun _ => rfl
  | cons payload rest ih =>
    intro start
    have hsize := h payload List.mem_cons_self
    rw [laidOut, List.map_cons, ih fun p hp => h p (List.mem_cons_of_mem _ hp), List.length_cons,
      List.range_succ_eq_map, List.map_cons, List.map_map, hsize, Nat.zero_mul, Nat.add_zero]
    refine congrArg (List.cons _) (List.map_congr_left fun k _ => ?_)
    show (start + size + k * size, size) = (start + (k + 1) * size, size)
    rw [Nat.succ_mul, Nat.add_assoc, Nat.add_comm size]

theorem length_flatten_of_size {α : Type} {size : Nat} {lists : List (List α)}
    (h : ∀ l ∈ lists, l.length = size) : lists.flatten.length = lists.length * size := by
  induction lists with
  | nil => exact (Nat.zero_mul size).symm
  | cons l lists ih =>
    rw [List.flatten_cons, List.length_append, h l List.mem_cons_self,
      ih fun l' hl' => h l' (List.mem_cons_of_mem l hl'), List.length_cons, Nat.succ_mul, Nat.add_comm]

/-! ### Sorting -/

theorem mem_payloads_of_mem {start : Nat} {payloads : List Bytes} {w : Written}
    (h : w ∈ laidOut start payloads) : w.payload ∈ payloads := by
  rw [← map_payload_laidOut start payloads]
  exact List.mem_map_of_mem h

theorem pairwise_laidOut (start : Nat) (payloads : List Bytes) :
    (laidOut start payloads).Pairwise fun a b => decide (a.offset ≤ b.offset) = true := by
  induction payloads generalizing start with
  | nil => exact .nil
  | cons payload rest ih =>
    refine .cons (fun w hw => decide_eq_true ?_) (ih _)
    exact Nat.le_trans (Nat.le_add_right ..) (le_offset_of_mem hw)

/-- Records of one size that lie one behind the other are told by their offsets: two at the same one are
    empty, and so the same. -/
theorem eq_of_offset_eq {size start : Nat} {payloads : List Bytes}
    (hsize : ∀ p ∈ payloads, p.length = size) {a b : Written} (ha : a ∈ laidOut start payloads)
    (hb : b ∈ laidOut start payloads) (h : a.offset = b.offset) : a = b := by
  induction payloads generalizing start with
  | nil => cases ha
  | cons payload rest ih =>
    have hrest : ∀ p ∈ rest, p.length = size := fun p hp => hsize p (List.mem_cons_of_mem _ hp)
    -- a record behind the first that starts where it does
    have hfirst : ∀ w ∈ laidOut (start + payload.length) rest, w.offset = start →
        w = { offset := start, payload } := by
      rintro ⟨offset, bytes⟩ hw rfl
      have hle : offset + payload.length ≤ offset := le_offset_of_mem hw
      have hempty : payload = [] := List.eq_nil_of_length_eq_zero (by omega)
      have hbytes : bytes.length = payload.length :=
        (hrest _ (mem_payloads_of_mem hw)).trans (hsize _ List.mem_cons_self).symm
      rw [hempty] at hbytes ⊢
      rw [List.eq_nil_of_length_eq_zero hbytes]
    rcases List.mem_cons.1 ha with rfl | ha
    · rcases List.mem_cons.1 hb with rfl | hb
      · rfl
      · exact (hfirst b hb h.symm).symm
    · rcases List.mem_cons.1 hb with rfl | hb
      · exact hfirst a ha h
      · exact ih hrest ha hb

/-- Sorting by offset finds records of one size that lie one behind the other again. -/
theorem byOffset_eq_laidOut {size start : Nat} {payloads : List Bytes} {all : List Written}
    (hsize : ∀ p ∈ payloads, p.length = size) (h : all.Perm (laidOut start payloads)) :
    byOffset all = laidOut start payloads := by
  have hsorted : (byOffset all).Pairwise fun a b => decide (a.offset ≤ b.offset) = true :=
    @List.pairwise_mergeSort _ (fun a b => decide (a.offset ≤ b.offset))
      (fun a b c hab hbc => decide_eq_true (Nat.le_trans (of_decide_eq_true hab) (of_decide_eq_true hbc)))
      (fun a b => by simpa using Nat.le_total a.offset b.offset) all
  have hperm : (byOffset all).Perm (laidOut start payloads) := (List.mergeSort_perm all _).trans h
  refine List.Perm.eq_of_pairwise (fun a b ha hb hab hba => ?_) hsorted (pairwise_laidOut ..) hperm
  exact eq_of_offset_eq hsize (hperm.subset ha) hb
    (Nat.le_antisymm (of_decide_eq_true hab) (of_decide_eq_true hba))

/-! ### By appenders -/

/-- Taken owner by owner, nothing is lost and nothing comes twice. -/
theorem flatMap_owner_perm {α : Type} (owner : α → Nat) (l : List α) {n : Nat}
    (h : ∀ a ∈ l, owner a < n) : ((List.range n).flatMap fun i => l.filter (owner · == i)).Perm l := by
  have hbelow : ∀ n, ((List.range n).flatMap fun i => l.filter (owner · == i)).Perm
      (l.filter fun a => decide (owner a < n)) := by
    intro n
    induction n with
    | zero => simp
    | succ n ih =>
      have hlow : (l.filter fun a => decide (owner a < n + 1)).filter (fun a => decide (owner a < n)) =
          l.filter fun a => decide (owner a < n) := by
        rw [List.filter_filter]
        refine List.filter_congr fun a _ => ?_
        rw [← Bool.decide_and]
        exact decide_eq_decide.2 (by omega)
      have hlast : (l.filter fun a => decide (owner a < n + 1)).filter
          (fun a => !decide (owner a < n)) = l.filter (owner · == n) := by
        rw [List.filter_filter]
        refine List.filter_congr fun a _ => ?_
        rw [← decide_not, ← Bool.decide_and]
        exact decide_eq_decide.2 (by omega)
      rw [List.range_succ, List.flatMap_append, List.flatMap_singleton]
      refine (ih.append_right _).trans ?_
      rw [← hlow, ← hlast]
      exact List.filter_append_perm ..
  refine (hbelow n).trans (List.Perm.of_eq (List.filter_eq_self.2 fun a ha => ?_))
  exact decide_eq_true (h a ha)

/-- All the records of all appenders, each told by its appender and its number, those of one appender in
    turn. -/
structure Interleaves (threads records : Nat) (order : List (Nat × Nat)) : Prop where
  appenders : ∀ x ∈ order, x.1 < threads
  inTurn : ∀ t, t < threads → order.filter (·.1 == t) = (List.range records).map fun r => (t, r)

theorem Interleaves.length_eq {threads records : Nat} {order : List (Nat × Nat)}
    (h : Interleaves threads records order) : order.length = threads * records := by
  have hturn : ∀ l ∈ (List.range threads).map fun t => order.filter (·.1 == t),
      l.length = records := by
    intro l hl
    obtain ⟨t, ht, rfl⟩ := List.mem_map.1 hl
    rw [h.inTurn t (List.mem_range.1 ht), List.length_map, List.length_range]
  rw [← (flatMap_owner_perm Prod.fst order h.appenders).length_eq, List.flatMap_def,
    length_flatten_of_size hturn, List.length_map, List.length_range]

/-- Where each owner's things are samples in turn, all of them are samples in some order. -/
theorem exists_order {α : Type} (owner : α → Nat) (bytes : α → Bytes) (sample : Nat → Nat → Bytes) :
    ∀ (l : List α) (first : Nat → Nat),
      (∀ t, (l.filter (owner · == t)).map bytes =
        (List.range' (first t) (l.filter (owner · == t)).length).map (sample t)) →
      ∃ order : List (Nat × Nat), order.map (fun x => sample x.1 x.2) = l.map bytes ∧
        order.map Prod.fst = l.map owner ∧ ∀ t, order.filter (·.1 == t) =
          (List.range' (first t) (l.filter (owner · == t)).length).map fun r => (t, r)
  | [], _, _ => ⟨[], rfl, rfl, fun _ => rfl⟩
  | a :: l, first, h => by
    have hself := h (owner a)
    rw [List.filter_cons_of_pos (by simp), List.map_cons, List.length_cons, List.range'_succ,
      List.map_cons] at hself
    obtain ⟨hbytes, hrest⟩ := List.cons.inj hself
    obtain ⟨order, hsamples, howners, hturns⟩ := exists_order owner bytes sample l
      (fun t => if t = owner a then first t + 1 else first t) (fun t => by
        by_cases ht : t = owner a
        · rw [if_pos ht, ht]
          exact hrest
        · have hother := h t
          rw [List.filter_cons_of_neg (by simpa using fun heq => ht heq.symm)] at hother
          rw [if_neg ht]
          exact hother)
    refine ⟨(owner a, first (owner a)) :: order, ?_, ?_, fun t => ?_⟩
    · rw [List.map_cons, List.map_cons, hsamples, hbytes]
    · rw [List.map_cons, List.map_cons, howners]
    · have hturn := hturns t
      by_cases ht : t = owner a
      · rw [if_pos ht] at hturn
        rw [List.filter_cons_of_pos (by simp [ht]), List.filter_cons_of_pos (by simp [ht]), hturn,
          List.length_cons, List.range'_succ, List.map_cons, ht]
      · rw [if_neg ht] at hturn
        rw [List.filter_cons_of_neg (by simpa using fun heq => ht heq.symm),
          List.filter_cons_of_neg (by simpa using fun heq => ht heq.symm), hturn]

/-- If each appender's things are its samples, all of them are the samples interleaved. -/
theorem exists_interleaving {α : Type} (owner : α → Nat) (bytes : α → Bytes)
    (sample : Nat → Nat → Bytes) (l : List α) {threads records : Nat}
    (howner : ∀ a ∈ l, owner a < threads)
    (h : ∀ t, t < threads →
      (l.filter (owner · == t)).map bytes = (List.range records).map (sample t)) :
    ∃ order, Interleaves threads records order ∧
      order.map (fun x => sample x.1 x.2) = l.map bytes := by
  have hcount : ∀ t, t < threads → (l.filter (owner · == t)).length = records := by
    intro t ht
    rw [← List.length_map bytes, h t ht, List.length_map, List.length_range]
  obtain ⟨order, hsamples, howners, hturns⟩ := exists_order owner bytes sample l (fun _ => 0)
    (fun t => by
      by_cases ht : t < threads
      · rw [h t ht, hcount t ht, List.range_eq_range']
      · rw [List.filter_eq_nil_iff.2 fun a ha => by
          have hlt := howner a ha
          rw [beq_iff_eq]
          omega]
        rfl)
  refine ⟨order, ⟨fun x hx => ?_, fun t ht => ?_⟩, hsamples⟩
  · have hmem := List.mem_map_of_mem (f := Prod.fst) hx
    rw [howners] at hmem
    obtain ⟨a, ha, howns⟩ := List.mem_map.1 hmem
    rw [← howns]
    exact howner a ha
  · rw [hturns t, hcount t ht, List.range_eq_range']

end BlockLog
