import BlockLog.Proofs.Log.Given

/-! The schedule of a log as one run among others. It only ever takes steps that can be taken, and it
    stops where there are none: every step lowers the potential that it has been given as fuel. Where
    it stops, every call is over and the writer has nothing left to drain.

        m ── step ──▶ · ── step ──▶ · ─ ─ ─ ─▶ m.settle     no step from here
          potential  >  potential  >           ≥ 0 -/

namespace BlockLog

/-- Calls to `d` make another device of it. -/
inductive Device.Becomes {δ : Type} [Device δ] (d : δ) : δ → Prop
  | same : Becomes d d
  | read {d' : δ} (offset len : Nat) (earlier : Becomes d d') :
    Becomes d (Device.read d' offset len).device
  | write {d' : δ} (offset : Nat) (bytes : Bytes) (earlier : Becomes d d') :
    Becomes d (Device.write d' offset bytes).device
  | sync {d' : δ} (earlier : Becomes d d') : Becomes d (Device.sync d').device

theorem Device.Becomes.trans {δ : Type} [Device δ] {d d' d'' : δ} (h : Becomes d d')
    (h' : Becomes d' d'') : Becomes d d'' := by
  induction h' with
  | same => exact h
  | read offset len _ ih => exact .read offset len ih
  | write offset bytes _ ih => exact .write offset bytes ih
  | sync _ ih => exact .sync ih

/-- A file stays where it is. -/
theorem Device.File.location_of_becomes {d d' : Device.File} (h : Device.Becomes d d') :
    d'.location = d.location := by
  induction h with
  | same => rfl
  | read offset len _ ih => exact (congrArg location (read_eq _ offset len).1).trans ih
  | @write d' offset bytes _ ih =>
    refine Eq.trans ?_ ih
    show (d'.write offset bytes).device.location = _
    unfold write
    split
    · rfl
    · split <;> rfl
  | sync _ ih => exact ih

namespace Machine

open LawfulDevice

variable {δ : Type} [Device δ]

/-! ### One step of the schedule -/

/-- A step changes the device by calls to it only. -/
theorem becomes_step {d : δ} {m m' : Machine δ} {actor : Actor} (h : m.step? actor = some m')
    (hd : Device.Becomes d m.device) : Device.Becomes d m'.device := by
  match actor, h with
  | .writer, h =>
    have hs : WriterStep m m' := writerStep?_cases h
    cases hs with
    | loop _ _ loop => rwa [loop.frame.2.2.2.1]
    | complete _ _ loop => rwa [loop.frame.2.2.2.1]
    | done | failed | panicked => exact .write _ _ hd
    | _ => exact hd
  | .client t, h =>
    obtain ⟨p, p', m₁, -, hs, rfl⟩ := clientStep?_cases h
    cases hs with
    | readMiss | readFails => exact .read _ _ hd
    | sync => exact .sync hd
    | _ => exact hd

theorem next?_eq_some {m m' : Machine δ} (h : m.next? false = some m') :
    ∃ actor, m.step? actor = some m' := by
  unfold next? at h
  split at h
  · rename_i next hnext
    cases h
    exact ⟨.writer, hnext⟩
  · obtain ⟨t, -, ht⟩ := List.exists_of_findSome?_eq_some h
    exact ⟨.client t, ht⟩

/-- The schedule stops only where there is no step. -/
theorem next?_eq_none {m : Machine δ} (h : m.next? false = none) (actor : Actor) :
    m.step? actor = none := by
  unfold next? at h
  split at h
  · cases h
  · rename_i hwriter
    cases actor with
    | writer => exact hwriter
    | client t =>
      by_cases ht : t < m.clients.length
      · exact List.findSome?_eq_none_iff.1 h t (List.mem_range.2 ht)
      · show m.clientStep? t = none
        rw [clientStep?, List.getElem?_eq_none (Nat.not_lt.1 ht)]

theorem becomes_settle {d : δ} {m : Machine δ} (h : Device.Becomes d m.device) :
    Device.Becomes d m.settle.device := by
  have hadvance : ∀ (fuel : Nat) {m : Machine δ}, Device.Becomes d m.device →
      Device.Becomes d (advance false fuel m).device := by
    intro fuel
    induction fuel with
    | zero => exact fun h => h
    | succ fuel ih =>
      intro m h
      rw [advance]
      cases hnext : m.next? false with
      | none => exact h
      | some next =>
        obtain ⟨actor, hs⟩ := next?_eq_some hnext
        exact ih (becomes_step hs h)
  exact hadvance m.potential h

variable [LawfulDevice δ] {device : δ} {settings : Settings} {clients t : Nat} {m₀ m : Machine δ}
  {past : History δ}

/-- A run of steps, and none can be taken at its end. -/
structure RunsDry (m : Machine δ) (more : History δ) (m' : Machine δ) : Prop where
  reached : Reaches m more m'
  steps : more.OnlySteps
  stuck : ∀ actor, m'.step? actor = none

theorem runsDry_advance (h₀ : open? device settings clients = .ok m₀) (fuel : Nat) :
    ∀ {past : History δ} {m : Machine δ}, Reaches m₀ past m → m.potential ≤ fuel →
      ∃ more, RunsDry m more (advance false fuel m) := by
  induction fuel with
  | zero =>
    intro past m h hle
    obtain ⟨⟨flushed, hinv⟩, -⟩ := inv_of_reaches h₀ h
    refine ⟨[], .start, fun now hnow => (by cases hnow), fun actor => ?_⟩
    cases hs : m.step? actor with
    | none => exact hs
    | some next =>
      have hlt := hinv.potential_lt hs
      omega
  | succ fuel ih =>
    intro past m h hle
    rw [advance]
    cases hnext : m.next? false with
    | none => exact ⟨[], .start, fun now hnow => (by cases hnow), next?_eq_none hnext⟩
    | some next =>
      obtain ⟨actor, hs⟩ := next?_eq_some hnext
      obtain ⟨⟨flushed, hinv⟩, -⟩ := inv_of_reaches h₀ h
      have hlt := hinv.potential_lt hs
      obtain ⟨more, hrun, hsteps, hstuck⟩ := ih (h.move (.step actor) hs) (by omega)
      have hfirst : Reaches m [⟨m, .step actor, next⟩] next := .move (.step actor) .start hs
      refine ⟨more ++ [⟨m, .step actor, next⟩], hfirst.trans hrun, fun now hnow => ?_, hstuck⟩
      rcases List.mem_append.1 hnow with hmore | hone
      · exact hsteps now hmore
      · cases List.mem_singleton.1 hone
        exact ⟨actor, rfl⟩

/-- The schedule is a run of steps to where there is none. -/
theorem runsDry_settle (h₀ : open? device settings clients = .ok m₀) (h : Reaches m₀ past m) :
    ∃ more, RunsDry m more m.settle :=
  runsDry_advance h₀ m.potential h (Nat.le_refl _)

/-! ### Before the first call -/

omit [LawfulDevice δ] in
/-- In a log that has just been opened the writer goes to sleep. -/
theorem settle_start (d : δ) {ring : Ring} (cache : Cache) (n : Nat)
    (hlt : ring.filled < ring.blockSize) :
    (start d ring cache n).settle = { start d ring cache n with writer := .asleep } := by
  have hpotential : ∃ fuel, (start d ring cache n).potential = fuel + 2 := by
    refine Nat.exists_eq_add_of_le' ?_
    show 2 ≤ _ + ((start d ring cache n).clients.length + 8) + _
    omega
  have hfirst : (start d ring cache n).next? false =
      some { start d ring cache n with writer := .asleep } := by
    have hblock : (start d ring cache n).nextBlock =
        { start d ring cache n with writer := .asleep } :=
      if_neg fun hready => Nat.not_le.2 hlt (of_decide_eq_true hready)
    rw [next?, show (start d ring cache n).heldStep? false = some _ from rfl, hblock]
  have hlast : ({ start d ring cache n with writer := .asleep } : Machine δ).next? false = none := by
    refine List.findSome?_eq_none_iff.2 fun t _ => ?_
    rw [clientStep?]
    cases hp : (List.replicate n (ClientPoint.idle none))[t]? with
    | none => rw [show (Machine.clients _)[t]? = none from hp]
    | some p =>
      rw [show (Machine.clients _)[t]? = some p from hp]
      cases List.eq_of_mem_replicate (List.mem_of_getElem? hp)
      rfl
  obtain ⟨fuel, hfuel⟩ := hpotential
  rw [settle, hfuel, advance, hfirst]
  dsimp only
  rw [advance, hlast]

omit [LawfulDevice δ] in
/-- Clients that come then might have been there when the log was opened. -/
theorem settle_withClients {more : Nat} {m₁ : Machine δ}
    (h₀ : open? device settings clients = .ok m₀)
    (h₁ : open? device settings (clients + more) = .ok m₁) :
    m₀.settle.withClients (clients + more) = m₁.settle := by
  obtain ⟨ring, cache, hring, hcache, rfl⟩ := open?_eq_ok h₀
  obtain ⟨ring', cache', hring', hcache', rfl⟩ := open?_eq_ok h₁
  cases hring.symm.trans hring'
  cases hcache.symm.trans hcache'
  obtain ⟨hvalid, -, hfilled, -⟩ := Ring.new_eq_ok hring
  have hlt : ring.filled < ring.blockSize := by
    rw [hfilled]
    exact hvalid.blockSize_pos
  rw [settle_start device cache clients hlt, settle_start device cache (clients + more) hlt, withClients]
  refine congrArg (fun points => { start device ring cache clients with
    writer := .asleep, clients := points }) ?_
  show List.replicate clients _ ++ List.replicate (clients + more - (List.replicate clients _).length) _ =
    List.replicate (clients + more) _
  rw [List.length_replicate, Nat.add_sub_cancel_left, List.replicate_append_replicate]

/-! ### Giving a call -/

omit [Device δ] [LawfulDevice δ] in
/-- A log that is open and where nobody is under way takes any call. -/
theorem submit?_of_idle (hopen : m.closed = false) (hidle : ∀ p ∈ m.clients, p.isIdle = true)
    (ht : t < m.clients.length) (request : Request) : ∃ m', m.submit? t request = some m' := by
  have hp := List.getElem?_eq_getElem ht
  have hi := hidle _ (List.getElem_mem ht)
  rw [submit?, hp]
  cases hq : m.clients[t] with
  | idle last =>
    by_cases hclose : request = .close
    · exact ⟨_, by simp only [hopen, Bool.false_eq_true, if_false, hclose, if_true,
        List.all_eq_true.2 hidle]; rfl⟩
    · exact ⟨_, by simp only [hopen, Bool.false_eq_true, if_false, hclose]; rfl⟩
  | _ =>
    rw [hq] at hi
    cases hi

end Machine

end BlockLog
