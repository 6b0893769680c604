import BlockLog.Proofs.Log.Faultless
import BlockLog.Proofs.Log.Progress

/-! Many clients and one log. When no call to the device fails, the appends stand in the log one behind
    the other, whole, in the order in which they ended; no client sees them in another order, and no
    append stands before one that was over when it was given.

        client t:  ├─ append a ─┤          ├── append c ──┤
        client u:       ├──── append b ────┤
        log:       ├── a ──┼────── b ──────┼───── c ──────┤ -/

namespace BlockLog

def Call.isAppend (c : Call) : Bool :=
  match c.request with
  | .append _ => true
  | _ => false

/-- What calls bring, one behind the other. -/
def payloads (calls : List Call) : Bytes := (calls.map fun c => c.request.payload).flatten

theorem payloads_append (before after : List Call) :
    payloads (before ++ after) = payloads before ++ payloads after := by
  rw [payloads, List.map_append, List.flatten_append]
  rfl

theorem payloads_cons (c : Call) (calls : List Call) :
    payloads (c :: calls) = c.request.payload ++ payloads calls := rfl

/-- Only appends bring anything. -/
theorem payloads_filter (calls : List Call) :
    payloads (calls.filter Call.isAppend) = payloads calls := by
  induction calls with
  | nil => rfl
  | cons c calls ih =>
    cases happend : c.isAppend with
    | true => rw [List.filter_cons_of_pos happend, payloads_cons, payloads_cons, ih]
    | false =>
      have hnone : c.request.payload = [] := by
        unfold Call.isAppend at happend
        split at happend
        · cases happend
        · rename_i hnot
          cases hreq : c.request with
          | append data => exact absurd hreq (hnot data)
          | _ => rfl
      rw [List.filter_cons_of_neg (by simp [happend]), ih, payloads_cons, hnone, List.nil_append]

/-! ### Calls that answer as they should -/

/-- Calls that answer as they should leave what they have brought. -/
theorem Trace.log_eq {calls : List Call} {log : Bytes} (h : Trace Exact calls log) :
    log = payloads calls := by
  induction h with
  | nil => rfl
  | snoc before last ih =>
    rw [payloads_append, ← ih, last.eq.2]
    exact congrArg _ (List.append_nil _).symm

/-- Each of them is answered from what those before it have brought. -/
theorem Trace.reply_eq {calls : List Call} {log : Bytes} (h : Trace Exact calls log)
    {before after : List Call} {c : Call} (hsplit : calls = before ++ c :: after) :
    c.reply = c.request.answer (payloads before) := by
  induction h generalizing after with
  | nil => exact absurd hsplit (by simp)
  | @snoc calls log log' c' hbefore last ih =>
    rcases List.eq_nil_or_concat after with rfl | ⟨rest, x, rfl⟩
    · obtain ⟨rfl, hc⟩ := List.append_inj' hsplit rfl
      cases hc
      rw [← hbefore.log_eq]
      exact last.eq.1
    · rw [List.concat_eq_append, ← List.cons_append, ← List.append_assoc] at hsplit
      exact ih (List.append_inj' hsplit rfl).1

/-- What an append brings ends before what later calls bring starts. -/
theorem Trace.end_le {calls : List Call} {log : Bytes} (h : Trace Exact calls log)
    {before after : List Call} {a c : Call} (hsplit : calls = before ++ c :: after) (ha : a ∈ before)
    (happend : a.isAppend = true) {start : Nat} (hstart : a.reply = .ok (.offset start)) :
    start + a.request.payload.length ≤ (payloads before).length := by
  obtain ⟨earlier, later, rfl⟩ := List.append_of_mem ha
  rw [List.append_assoc] at hsplit
  have hreply := h.reply_eq hsplit
  rw [hstart] at hreply
  cases hreq : a.request with
  | append data =>
    rw [hreq] at hreply
    cases hreply
    rw [payloads_append, payloads_cons, hreq, List.length_append, List.length_append]
    omega
  | _ => simp [Call.isAppend, hreq] at happend

/-- The place of an append among all calls, from its place among the appends. -/
theorem exists_split_of_appends {calls before after : List Call} {c : Call}
    (h : calls.filter Call.isAppend = before ++ c :: after) :
    ∃ earlier later, calls = earlier ++ c :: later ∧ payloads earlier = payloads before ∧
      c.isAppend = true := by
  obtain ⟨earlier, rest, rfl, hbefore, hrest⟩ := List.filter_eq_append_iff.1 h
  obtain ⟨quiet, later, rfl, hquiet, happend, -⟩ := List.filter_eq_cons_iff.1 hrest
  have hbring : payloads (earlier ++ quiet) = payloads before := by
    rw [← payloads_filter, List.filter_append, hbefore, List.filter_eq_nil_iff.2 hquiet,
      List.append_nil]
  exact ⟨earlier ++ quiet, later, (List.append_assoc ..).symm, hbring, happend⟩

namespace History

variable {δ : Type} [Device δ]

/-- The appends that are over, in the order in which they ended. -/
def appends (past : History δ) : List Call := past.calls.filter Call.isAppend

/-- The appends stand in the log in the order in which they ended, and reads see them so. -/
structure Tiled (past : History δ) (m : Machine δ) : Prop where
  /-- No append stands before one that was over when it was given. -/
  order : past.appends.Pairwise fun a b =>
    ¬ b.ended < a.begun ∧ (a.client = b.client → a.ended < b.begun)
  /-- The log is what they have brought. Behind that there is at most the start of one more append. -/
  log : ∃ pending, past.log = payloads past.appends ++ pending ∧
    (pending ≠ [] → ∃ (t : Nat) (data rest : Bytes) (offset : Nat) (asleep : Bool),
      m.clients[t]? = some (.appendWaiting data rest offset asleep) ∧ pending ++ rest = data)
  /-- An append answers how much those before it have brought. -/
  offset : ∀ before c after, past.appends = before ++ c :: after →
    c.reply = .ok (.offset (payloads before).length)
  /-- A read answers the bytes of its range, or that the log ends before the end of it, though not
      before the end of an append that was over when the read was given. -/
  read : ∀ c ∈ past.calls, ∀ offset len, c.request = .read offset len →
    (offset + len ≤ past.log.length ∧ c.reply = .ok (.bytes (past.log.slice offset len))) ∨
    ∃ size, c.reply = .error (.readPastEnd offset len size) ∧ size < offset + len ∧
      ∀ a ∈ past.appends, a.ended < c.begun → ∀ start, a.reply = .ok (.offset start) →
        start + a.request.payload.length ≤ size

variable {past : History δ} {m : Machine δ}

omit [Device δ] in
/-- Calls that were over when a call was given stand before it. -/
theorem Booked.mem_before (h : Booked past m) {before after : List Call} {a c : Call}
    (hsplit : past.calls = before ++ c :: after) (ha : a ∈ past.calls) (hover : a.ended < c.begun) :
    a ∈ before := by
  have hc : c ∈ past.calls := by
    rw [hsplit]
    exact List.mem_append_right _ List.mem_cons_self
  have hbegun := (h.finished c hc).1
  have hordered := h.ordered
  rw [hsplit, List.mem_append, List.mem_cons] at ha
  rw [hsplit, List.pairwise_append] at hordered
  rcases ha with ha | rfl | ha
  · exact ha
  · omega
  · have := (List.rel_of_pairwise_cons hordered.2.1 ha).1
    omega

end History

namespace Machine

variable {δ : Type} [Device δ] [LawfulDevice δ] {device : δ} {settings : Settings} {clients : Nat}
  {m₀ m : Machine δ} {past : History δ}

/-- Where the calls that are over have brought `log`, what is behind that in the log is the start of an
    append under way. -/
theorem Extends.pending {initial : Bytes} {a : Account} {log pending : Bytes} (he : Extends m a log)
    (h : Inv initial m a) (hlog : a.log = log ++ pending) (hsome : pending ≠ []) :
    ∃ (t : Nat) (data rest : Bytes) (offset : Nat) (asleep : Bool),
      m.clients[t]? = some (.appendWaiting data rest offset asleep) ∧ pending ++ rest = data := by
  by_contra hnone
  refine hsome (List.append_cancel_left (hlog.symm.trans ?_))
  rw [List.append_nil]
  refine he.settled fun t p hp => ?_
  cases p with
  | appendWaiting data rest offset asleep =>
    refine absurd ⟨t, data, rest, offset, asleep, hp, ?_⟩ hnone
    obtain ⟨-, -, hdata⟩ := h.serves t _ hp
    rwa [he.waiting t _ _ _ _ hp, hlog, List.drop_left] at hdata
  | _ => rfl

/-- When no call to the device has failed, or none could, the appends of any number of clients stand in
    the log one behind the other, whole, in the order in which they ended, and every read sees them
    so. Every call comes to its end. -/
theorem appends_tile (h₀ : open? device settings clients = .ok m₀) (h : Reaches m₀ past m)
    (hfree : past.Unfailing ∨
      past.Faultless ∧ Addressable δ (Device.blockSize device) past.log.length) :
    past.Tiled m ∧ m.Settles := by
  have hu : past.Unfailing := hfree.elim id fun hf => unfailing_of_faultless h₀ h hf.1 hf.2
  obtain ⟨flushed, log, hinv, he, htrace⟩ := ledger_of_reaches h₀ h
  have hb := History.booked_of_reaches h₀ h
  replace htrace := htrace.exact (sound_of_reaches h₀ h hu).2
  obtain ⟨pending, hpending⟩ := he.ledger
  have hlog : past.log = payloads past.calls ++ pending := by
    rw [← htrace.log_eq]
    exact hpending.symm
  refine ⟨?_, settles_of_reaches h₀ h⟩
  exact
    { order := by
        refine (hb.ordered.imp_of_mem fun ha _ hboth => ⟨?_, hboth.2⟩).filter _
        have := (hb.finished _ ha).1
        omega
      log := by
        refine ⟨pending, ?_, he.pending hinv hpending.symm⟩
        rw [History.appends, payloads_filter]
        exact hlog
      offset := by
        intro before c after hsplit
        obtain ⟨earlier, later, hcalls, hearlier, happend⟩ := exists_split_of_appends hsplit
        rw [htrace.reply_eq hcalls, hearlier]
        cases hreq : c.request with
        | append data => rfl
        | _ => simp [Call.isAppend, hreq] at happend
      read := by
        intro c hc offset len hreq
        obtain ⟨before, after, hcalls⟩ := List.append_of_mem hc
        have hreply := htrace.reply_eq hcalls
        rw [hreq, Request.answer] at hreply
        have hall : past.log = payloads before ++ (payloads (c :: after) ++ pending) := by
          rw [hlog, hcalls, payloads_append, List.append_assoc]
        split at hreply
        · rename_i hpast
          refine .inr ⟨_, hreply, hpast, fun a ha hover start hstart => ?_⟩
          obtain ⟨ha, happend⟩ := List.mem_filter.1 ha
          exact htrace.end_le hcalls (hb.mem_before hcalls ha hover) happend hstart
        · rename_i hinside
          have hrange : offset + len ≤ (payloads before).length := Nat.not_lt.1 hinside
          refine .inl ⟨?_, ?_⟩
          · rw [hall, List.length_append]
            omega
          · rw [hreply, hall, Bytes.slice_append_of_le hrange] }

/-- Two appends at once, the first too long for the ring, and a read across them. -/
theorem appends_tile_two_clients : ∃ (m₀ m : Machine Device.Memory) (past : History Device.Memory),
    open? { blockSize := 2, contents := .ofList [] } { bufferBlocks := 1, cacheBlocks := 1 } 2 =
      .ok m₀ ∧ Reaches m₀ past m ∧ past.Unfailing ∧
    past.calls.map (fun c => (c.client, c.request, c.begun, c.ended)) =
      [(0, .append [1, 2, 3], 0, 8), (1, .append [4], 1, 10), (0, .read 1 2, 11, 22)] ∧
    past.Tiled m := by
  let moves : List Move :=
    [.submit 0 (.append [1, 2, 3]), .submit 1 (.append [4]), .step (.client 0), .step (.client 0),
      .step .writer, .step .writer, .step .writer, .step .writer, .step (.client 0),
      .step (.client 1), .step (.client 1), .submit 0 (.read 1 2), .step (.client 0),
      .step (.client 0), .step .writer, .step .writer, .step .writer, .step .writer,
      .step (.client 0), .step (.client 0), .step (.client 0), .step (.client 0), .step (.client 0)]
  have h₀ : open? ({ blockSize := 2, contents := .ofList [] } : Device.Memory)
      { bufferBlocks := 1, cacheBlocks := 1 } 2 = .ok _ := rfl
  refine ⟨_, _, _, h₀, reaches_run? moves (by decide +kernel), by decide +kernel,
    by decide +kernel, ?_⟩
  exact (appends_tile h₀ (reaches_run? moves (by decide +kernel)) (.inl (by decide +kernel))).1

end Machine

end BlockLog
