import BlockLog.Proofs.Cache

/-! The cache as a memo table, told of its uses alone. A block is there when the latest lookup in its
    slot was one of that block and went through, and the block has not been dropped since; and then
    what is there is what the fill of its latest miss left in the buffer.

        uses:   fetch a    fetch b    get a    evict a    fetch b    evict b
        slot:     a          b          b         b          b          –
                 miss       miss     nothing   nothing      hit      dropped

    A fill may write over any part of the buffer before it fails, so the buffer of a slot without a
    block has whatever the fills in that slot have left there, one over the other. -/

namespace BlockLog.Cache

/-- A fill: it writes over any part of the buffer it is given, and then goes through or fails. -/
structure Fill (ε : Type) where
  run : Bytes → Bytes × Except ε Unit
  length_run : ∀ buffer, (run buffer).1.length = buffer.length

/-- The fill that copies `bytes` over the front of the buffer, as a read of the device does. -/
def Fill.overlay {ε : Type} (bytes : Bytes) (outcome : Except ε Unit) : Fill ε where
  run buffer := (buffer.overlay bytes, outcome)
  length_run buffer := Bytes.length_overlay buffer bytes

/-- One use of a cache. -/
inductive Use (ε : Type) where
  | fetch (block : Nat) (fill : Fill ε)
  | get (block : Nat)
  | evict (block : Nat)

variable {ε : Type} {c c₀ : Cache} {b slots blockSize : Nat}

namespace Use

/-- The block that a use is of. -/
def block : Use ε → Nat
  | fetch block _ | get block | evict block => block

/-- The cache after a use of it. -/
def apply (c : Cache) : Use ε → Cache
  | fetch block fill => (c.fetch block fill.run).1
  | get _ => c
  | evict block => (c.evict block).1

/-- The use looks up no block of the slot of `b` and does not drop `b`. -/
def Spares (slots b : Nat) : Use ε → Prop
  | fetch block _ => block % slots ≠ b % slots
  | get _ => True
  | evict block => block ≠ b

end Use

/-- The cache after a list of uses, the latest first. -/
def after (c₀ : Cache) : List (Use ε) → Cache
  | [] => c₀
  | use :: uses => use.apply (after c₀ uses)

/-- The latest lookup in the slot of `b` was one of `b` that went through, and `b` has not been
    dropped since. -/
def Keeps (c₀ : Cache) (slots b : Nat) (uses : List (Use ε)) : Prop :=
  ∃ since fill earlier, uses = since ++ .fetch b fill :: earlier ∧
    ((after c₀ earlier).fetch b fill.run).2.isOk = true ∧ ∀ use ∈ since, use.Spares slots b

/-- The slot's buffer as the fill of the latest miss of `b` has left it. -/
def leftByFill? (c₀ : Cache) (b : Nat) : List (Use ε) → Option Bytes
  | [] => none
  | .fetch block fill :: uses =>
    if block = b ∧ (after c₀ uses).get? b = none then
      some (fill.run ((after c₀ uses).slotOf b).buffer).1
    else leftByFill? c₀ b uses
  | _ :: uses => leftByFill? c₀ b uses

/-- A lookup of `block` runs its fill: one that only fails makes the lookup fail. -/
def RunsFill (c : Cache) (block : Nat) : Prop :=
  (c.fetch block fun buffer => (buffer, (.error () : Except Unit Unit))).2.isOk = false

/-! ### One lookup -/

theorem fetch_of_hit {bytes : Bytes} (h : c.get? b = some bytes)
    (fill : Bytes → Bytes × Except ε Unit) : c.fetch b fill = (c, .ok (bytes, true)) := by
  rw [fetch, h]

/-- A miss runs the fill on the buffer of the slot, and installs what it leaves there. -/
theorem fetch_of_miss (h : c.get? b = none) (fill : Bytes → Bytes × Except ε Unit) :
    c.fetch b fill =
      ((c.install b (fill (c.slotOf b).buffer).1 (fill (c.slotOf b).buffer).2).1,
        (fill (c.slotOf b).buffer).2.map fun _ => ((fill (c.slotOf b).buffer).1, false)) := by
  rw [fetch, h]
  rcases fill (c.slotOf b).buffer with ⟨buffer, outcome⟩
  cases outcome <;> rfl

theorem runsFill_iff : c.RunsFill b ↔ c.get? b = none := by
  unfold RunsFill
  cases h : c.get? b with
  | some bytes =>
    rw [fetch_of_hit h]
    simp [Except.isOk, Except.toBool]
  | none =>
    rw [fetch_of_miss h]
    simp [Except.isOk, Except.toBool, Except.map]

/-- Whatever it returns, it says whether the block was there. -/
theorem hit_of_fetch {fill : Bytes → Bytes × Except ε Unit} {bytes : Bytes} {hit : Bool}
    (h : (c.fetch b fill).2 = .ok (bytes, hit)) : hit = (c.get? b).isSome := by
  cases hget : c.get? b with
  | some _ =>
    rw [fetch_of_hit hget] at h
    cases h
    rfl
  | none =>
    rw [fetch_of_miss hget] at h
    cases hfill : (fill (c.slotOf b).buffer).2 with
    | ok _ =>
      rw [hfill] at h
      cases h
      rfl
    | error e =>
      rw [hfill] at h
      cases h

/-- A lookup that went through leaves its block in the slot, and every other block of the slot out. -/
theorem isSome_get?_fetch (h : c.Valid) (block : Nat) (fill : Bytes → Bytes × Except ε Unit)
    (other : Nat) :
    ((c.fetch block fill).1.get? other).isSome =
      if c.placeOf other = c.placeOf block then
        decide (other = block) && (c.fetch block fill).2.isOk
      else (c.get? other).isSome := by
  cases hget : c.get? block with
  | some bytes =>
    rw [fetch_of_hit hget]
    split
    · rename_i hplace
      rw [isSome_get?_of_hit hget hplace]
      exact (Bool.and_true _).symm
    · rfl
  | none =>
    rw [fetch_of_miss hget, isSome_get?_install _ _ h]
    split
    · cases (fill (c.slotOf block).buffer).2 <;> rfl
    · rfl

theorem evict_snd (c : Cache) (block : Nat) : (c.evict block).2 = (c.get? block).isSome := by
  unfold evict get?
  split <;> rfl

/-! ### One use -/

section

variable (h : c.Valid)
include h

theorem Valid.use (use : Use ε) : (use.apply c).Valid := by
  cases use with
  | fetch block fill =>
    show (c.fetch block fill.run).1.Valid
    cases hget : c.get? block with
    | some bytes =>
      rw [fetch_of_hit hget]
      exact h
    | none =>
      rw [fetch_of_miss hget]
      refine h.install _ _ ?_ _
      rw [fill.length_run]
      exact h.length_buffer _ (slotOf_mem h block)
  | get block => exact h
  | evict block => exact h.evict block

omit h in
/-- No use touches a slot that its block does not belong in. -/
theorem slot?_use (use : Use ε) {i : Nat} (hi : i ≠ c.placeOf use.block) :
    (use.apply c).slot? i = c.slot? i := by
  cases use with
  | fetch block fill =>
    show (c.fetch block fill.run).1.slot? i = _
    cases hget : c.get? block with
    | some bytes => rw [fetch_of_hit hget]
    | none =>
      rw [fetch_of_miss hget]
      cases (fill.run (c.slotOf block).buffer).2 <;> exact slot?_setSlot_of_ne hi _
  | get block => rfl
  | evict block =>
    show (c.evict block).1.slot? i = _
    unfold evict
    split
    · exact slot?_setSlot_of_ne hi _
    · rfl

omit h in
@[simp] theorem length_use (use : Use ε) : (use.apply c).slots.length = c.slots.length := by
  cases use with
  | fetch block fill =>
    show (c.fetch block fill.run).1.length = c.length
    cases hget : c.get? block with
    | some bytes => rw [fetch_of_hit hget]
    | none => rw [fetch_of_miss hget, length_install]
  | get block => rfl
  | evict block => exact length_evict c block

/-- A use leaves a block there when it is a lookup of that block that went through, or when the block
    was there and the use spares it. -/
theorem isSome_get?_use (use : Use ε) (b : Nat) : ((use.apply c).get? b).isSome = true ↔
    (∃ fill, use = .fetch b fill ∧ (c.fetch b fill.run).2.isOk = true) ∨
      use.Spares c.slots.length b ∧ (c.get? b).isSome = true := by
  cases use with
  | fetch block fill =>
    show ((c.fetch block fill.run).1.get? b).isSome = true ↔ _
    rw [isSome_get?_fetch h]
    by_cases hplace : c.placeOf b = c.placeOf block
    · have hspares : ¬(Use.fetch block fill).Spares c.slots.length b := fun hs => hs hplace.symm
      rw [if_pos hplace, Bool.and_eq_true, decide_eq_true_iff]
      constructor
      · rintro ⟨rfl, hok⟩
        exact .inl ⟨fill, rfl, hok⟩
      · rintro (⟨fill', heq, hok⟩ | ⟨hs, -⟩)
        · cases heq
          exact ⟨rfl, hok⟩
        · exact absurd hs hspares
    · rw [if_neg hplace]
      constructor
      · exact fun hsome => .inr ⟨Ne.symm hplace, hsome⟩
      · rintro (⟨fill', heq, -⟩ | ⟨-, hsome⟩)
        · cases heq
          exact absurd rfl hplace
        · exact hsome
  | get block => simp [Use.apply, Use.Spares]
  | evict block =>
    show ((c.evict block).1.get? b).isSome = true ↔ _
    rw [get?_evict h]
    by_cases heq : b = block
    · simp [heq, Use.Spares]
    · simp [heq, Use.Spares, Ne.symm heq]

/-- The bytes of a block that a use leaves there: what the fill has left, if the use was a miss of the
    block, and else what they were. -/
theorem get?_use {use : Use ε} {bytes : Bytes} (hg : (use.apply c).get? b = some bytes) :
    (∃ fill, use = .fetch b fill ∧ c.get? b = none ∧
        (fill.run (c.slotOf b).buffer).1 = bytes) ∨
      (∀ fill, use = .fetch b fill → c.get? b ≠ none) ∧ c.get? b = some bytes := by
  cases use with
  | fetch block fill =>
    change (c.fetch block fill.run).1.get? b = some bytes at hg
    cases hget : c.get? block with
    | some old =>
      rw [fetch_of_hit hget] at hg
      refine .inr ⟨fun _ _ hnone => ?_, hg⟩
      cases hg.symm.trans hnone
    | none =>
      rw [fetch_of_miss hget] at hg
      by_cases hplace : c.placeOf b = c.placeOf block
      · cases hfill : (fill.run (c.slotOf block).buffer).2 with
        | ok _ =>
          rw [hfill] at hg
          simp only [get?_install_ok block _ h, hplace, if_true, Option.ite_none_right_eq_some,
            Option.some.injEq] at hg
          rcases hg with ⟨rfl, hbytes⟩
          exact .inl ⟨fill, rfl, hget, hbytes⟩
        | error e =>
          rw [hfill] at hg
          simp [get?_install_error block _ h, hplace] at hg
      · have hold : c.get? b = some bytes := by
          cases hfill : (fill.run (c.slotOf block).buffer).2 with
          | ok _ => simpa [hfill, get?_install_ok block _ h, hplace] using hg
          | error e => simpa [hfill, get?_install_error block _ h, hplace] using hg
        refine .inr ⟨fun _ heq _ => ?_, hold⟩
        cases heq
        exact hplace rfl
  | get block => exact .inr ⟨fun _ heq => absurd heq nofun, hg⟩
  | evict block =>
    change (c.evict block).1.get? b = some bytes at hg
    rw [get?_evict h] at hg
    split at hg
    · cases hg
    · exact .inr ⟨fun _ heq => absurd heq nofun, hg⟩

end

/-! ### The uses of a new cache -/

theorem keeps_nil : ¬Keeps c₀ slots b ([] : List (Use ε)) := by
  rintro ⟨since, fill, earlier, heq, -⟩
  cases since <;> cases heq

theorem keeps_cons_iff {use : Use ε} {uses : List (Use ε)} : Keeps c₀ slots b (use :: uses) ↔
    (∃ fill, use = .fetch b fill ∧ ((after c₀ uses).fetch b fill.run).2.isOk = true) ∨
      use.Spares slots b ∧ Keeps c₀ slots b uses := by
  constructor
  · rintro ⟨since, fill, earlier, heq, hok, hspared⟩
    cases since with
    | nil =>
      cases heq
      exact .inl ⟨fill, rfl, hok⟩
    | cons later since =>
      cases heq
      obtain ⟨huse, hrest⟩ := List.forall_mem_cons.1 hspared
      exact .inr ⟨huse, since, fill, earlier, rfl, hok, hrest⟩
  · rintro (⟨fill, rfl, hok⟩ | ⟨huse, since, fill, earlier, rfl, hok, hrest⟩)
    · exact ⟨[], fill, uses, rfl, hok, fun _ hmem => by cases hmem⟩
    · exact ⟨use :: since, fill, earlier, rfl, hok, List.forall_mem_cons.2 ⟨huse, hrest⟩⟩

/-- What every list of uses leaves: a valid cache that has what the uses say. -/
structure Recalls (c₀ : Cache) (slots : Nat) (uses : List (Use ε)) (c : Cache) : Prop where
  valid : c.Valid
  length : c.slots.length = slots
  kept : ∀ b, (c.get? b).isSome = true ↔ Keeps c₀ slots b uses
  bytes : ∀ b bytes, c.get? b = some bytes → leftByFill? c₀ b uses = some bytes

theorem Recalls.use {uses : List (Use ε)} (h : Recalls c₀ slots uses (after c₀ uses))
    (use : Use ε) : Recalls c₀ slots (use :: uses) (use.apply (after c₀ uses)) where
  valid := h.valid.use use
  length := (length_use use).trans h.length
  kept b := by rw [isSome_get?_use h.valid, keeps_cons_iff, h.length, h.kept b]
  bytes b bytes hg := by
    rcases get?_use h.valid hg with ⟨fill, rfl, hmiss, hleft⟩ | ⟨hother, hold⟩
    · rw [leftByFill?, if_pos ⟨rfl, hmiss⟩, hleft]
    · cases use with
      | fetch block fill =>
        rw [leftByFill?, if_neg, h.bytes b bytes hold]
        rintro ⟨rfl, hmiss⟩
        exact hother fill rfl hmiss
      | get block => exact h.bytes b bytes hold
      | evict block => exact h.bytes b bytes hold

theorem recalls_after (h : new slots blockSize = .ok c₀) (uses : List (Use ε)) :
    Recalls c₀ slots uses (after c₀ uses) := by
  induction uses with
  | nil =>
    obtain ⟨hvalid, -, hlength, hnone⟩ := new_eq_ok h
    exact
      { valid := hvalid
        length := hlength
        kept b := by simp [after, hnone b, keeps_nil]
        bytes b bytes hg := by cases (hnone b).symm.trans hg }
  | cons use uses ih => exact ih.use use

/-- What a cache does, after the uses it has had. -/
structure Memoizes (c₀ : Cache) (slots : Nat) (uses : List (Use ε)) (c : Cache) : Prop where
  /-- A slot is only ever valid for the blocks of its own remainder. -/
  homed : ∀ i s b, c.slot? i = some s → s.block = some b → b % slots = i
  /-- What is there, and its bytes. -/
  recalled : ∀ b bytes, c.get? b = some bytes ↔
    Keeps c₀ slots b uses ∧ leftByFill? c₀ b uses = some bytes
  /-- A lookup runs its fill when the block is not there, and says whether it was. -/
  filled : ∀ b, c.RunsFill b ↔ c.get? b = none
  hit : ∀ b (fill : Fill ε) bytes hit,
    (c.fetch b fill.run).2 = .ok (bytes, hit) → hit = (c.get? b).isSome
  /-- A hit returns the bytes that are there and changes nothing. -/
  hits : ∀ b (fill : Fill ε) bytes, c.get? b = some bytes →
    c.fetch b fill.run = (c, .ok (bytes, true))
  /-- A miss runs the fill on the slot's buffer, and fails where the fill fails. -/
  misses : ∀ b (fill : Fill ε), c.get? b = none →
    ((c.fetch b fill.run).1.slotOf b).buffer = (fill.run (c.slotOf b).buffer).1 ∧
      (c.fetch b fill.run).2 =
        (fill.run (c.slotOf b).buffer).2.map fun _ => ((fill.run (c.slotOf b).buffer).1, false)
  /-- A lookup that fails leaves its slot without a block. -/
  failed : ∀ b (fill : Fill ε),
    (c.fetch b fill.run).2.isOk = false → (c.fetch b fill.run).1.Vacant b
  /-- Dropping a block says whether it was there, and drops no other. -/
  dropped : ∀ b, (c.evict b).2 = (c.get? b).isSome ∧
    ∀ other, (c.evict b).1.get? other = if other = b then none else c.get? other
  /-- No use touches another slot. -/
  others : ∀ (use : Use ε) i, i ≠ use.block % slots → (use.apply c).slot? i = c.slot? i

theorem buffer_fetch_of_miss (h : c.Valid) (hget : c.get? b = none)
    (fill : Bytes → Bytes × Except ε Unit) :
    ((c.fetch b fill).1.slotOf b).buffer = (fill (c.slotOf b).buffer).1 := by
  rw [fetch_of_miss hget]
  cases (fill (c.slotOf b).buffer).2 with
  | ok _ => exact congrArg Slot.buffer ((slotOf_setSlot h b b _).trans (if_pos rfl))
  | error _ => exact congrArg Slot.buffer ((slotOf_setSlot h b b _).trans (if_pos rfl))

theorem vacant_fetch (h : c.Valid) {fill : Bytes → Bytes × Except ε Unit}
    (hfail : (c.fetch b fill).2.isOk = false) : (c.fetch b fill).1.Vacant b := by
  cases hget : c.get? b with
  | some bytes =>
    rw [fetch_of_hit hget] at hfail
    cases hfail
  | none =>
    rw [fetch_of_miss hget] at hfail ⊢
    cases hfill : (fill (c.slotOf b).buffer).2 with
    | ok _ =>
      rw [hfill] at hfail
      cases hfail
    | error e => exact (vacant_install_error h b _ e).1

/-- The cache is a memo table of its latest fills: after any uses of a new one, the block of a slot,
    its bytes, and what the next use does are what the uses say. -/
theorem memoizes_after (h : new slots blockSize = .ok c₀) (uses : List (Use ε)) :
    Memoizes c₀ slots uses (after c₀ uses) := by
  obtain ⟨hvalid, hlength, hkept, hbytes⟩ := recalls_after h uses
  constructor
  case homed =>
    intro i s b hs hb
    rw [← hlength]
    exact hvalid.homed i s b hs hb
  case recalled =>
    intro b bytes
    constructor
    · intro hg
      refine ⟨(hkept b).1 ?_, hbytes b bytes hg⟩
      rw [hg]
      rfl
    · rintro ⟨hkeeps, hleft⟩
      obtain ⟨held, hheld⟩ := Option.isSome_iff_exists.1 ((hkept b).2 hkeeps)
      cases (hbytes b held hheld).symm.trans hleft
      exact hheld
  case filled => exact fun b => runsFill_iff
  case hit => exact fun b fill bytes hit => hit_of_fetch
  case hits => exact fun b fill bytes hg => fetch_of_hit hg fill.run
  case misses =>
    intro b fill hg
    exact ⟨buffer_fetch_of_miss hvalid hg fill.run, by rw [fetch_of_miss hg]⟩
  case failed => exact fun b fill => vacant_fetch hvalid
  case dropped => exact fun b => ⟨evict_snd _ b, get?_evict hvalid b⟩
  case others =>
    intro use i hi
    rw [← hlength] at hi
    exact slot?_use use hi

/-- Two slots. A lookup of block 3 writes over the first byte that block 1 has left in the slot, and
    fails; one of block 5 writes over it again, and goes through. Dropping block 1 drops nothing. -/
theorem memoizes_two_slots :
    let uses : List (Use Unit) :=
      [.evict 1, .fetch 5 (.overlay [9] (.ok ())), .fetch 3 (.overlay [7] (.error ())),
        .fetch 1 (.overlay [1, 2] (.ok ()))]
    ∃ c₀, new 2 2 = .ok c₀ ∧ Memoizes c₀ 2 uses (after c₀ uses) ∧
      (after c₀ uses).get? 5 = some [9, 2] ∧ (after c₀ uses).get? 1 = none := by
  intro uses
  have hnew : new 2 2 = .ok ⟨List.replicate 2 ⟨none, [0, 0]⟩, 2⟩ := rfl
  exact ⟨_, hnew, memoizes_after hnew uses, by decide +kernel, by decide +kernel⟩

end BlockLog.Cache
