import BlockLog.Proofs.Log.Faultless
import BlockLog.Proofs.Log.Progress

/-! A log with one client is a byte string that grows at its end. Each call is answered from the bytes
    that had been pushed when it was given, whatever the writer was doing, whatever the cache had of
    the device, and whatever failed before. -/

namespace BlockLog.Machine

open LawfulDevice (contents)

variable {δ : Type} [Device δ] [LawfulDevice δ] {device : δ} {settings : Settings}
  {m₀ m m' : Machine δ} {past : History δ}

/-- What the only client of a log has done: each call that is over was answered from what had been
    pushed when it was given, and the one under way will be. -/
structure Sequential (past : History δ) (m : Machine δ) (log : Bytes) : Prop where
  finished : ∀ c ∈ past.calls, Answers (past.logAt c.begun) c.request c.reply (past.logAt (c.ended + 1))
  underway : ∀ (t : Nat) (p : ClientPoint) (begun : Nat) (request : Request),
    m.clients[t]? = some p → p.request? = some request →
    past.lastCall t = some (begun, request) → log = past.logAt begun

omit [Device δ] [LawfulDevice δ] in
/-- A client that is alone and has no call under way leaves nothing unfinished. -/
theorem Extends.log_eq_of_idle {a : Account} {log : Bytes} (he : Extends m a log)
    (hone : m.clients.length = 1) {t : Nat} {p : ClientPoint} (hp : m.clients[t]? = some p)
    (hidle : p.isIdle = true) : a.log = log := by
  have ht := (List.getElem?_eq_some_iff.1 hp).1
  refine he.settled fun u q hq => ?_
  have hu := (List.getElem?_eq_some_iff.1 hq).1
  rw [show u = t by omega, hp] at hq
  cases hq
  cases p <;> first | rfl | cases hidle

omit [LawfulDevice δ] in
theorem Sequential.move {flushed : Nat} {log log' : Bytes} (hseq : Sequential past m log)
    (hb : History.Booked past m) {move : Move} (hm : m.move? move = some m')
    (hends : ∀ c, History.ending? ⟨m, move, m'⟩ past = some c → Answers log c.request c.reply log' ∧
      History.log (⟨m, move, m'⟩ :: past) = log')
    (hsame : History.ending? ⟨m, move, m'⟩ past = none → log' = log)
    (he : Extends m ⟨past.log, past.durable, flushed⟩ log) (hone : m.clients.length = 1) :
    Sequential (⟨m, move, m'⟩ :: past) m' log' := by
  have hearlier : ∀ {n : Nat}, n ≤ past.length →
      History.logAt (⟨m, move, m'⟩ :: past) n = past.logAt n := fun hn => History.logAt_cons hn
  refine ⟨fun c hc => ?_, fun t p begun request hp hreq hlast => ?_⟩
  · rw [History.calls, List.mem_append] at hc
    rcases hc with hc | hc
    · obtain ⟨hbegun, hended⟩ := hb.finished c hc
      rw [hearlier (by omega), hearlier (by omega)]
      exact hseq.finished c hc
    · have hending := Option.mem_toList.1 hc
      obtain ⟨p, p', m₁, -, hp, hs, -, hreq, -, hlast, hended⟩ := History.ending?_cases hb hm hending
      obtain ⟨begun, hlast', hbegun, -⟩ := hb.underway _ p _ hp hreq
      rw [hlast] at hlast'
      cases hlast'
      obtain ⟨hanswer, hlog⟩ := hends c hending
      have hafter : History.logAt (⟨m, move, m'⟩ :: past) (c.ended + 1) = log' := by
        rw [hended, ← hlog]
        exact History.logAt_length _
      rw [hearlier (Nat.le_of_lt hbegun), hafter, ← hseq.underway _ p _ _ hp hreq hlast]
      exact hanswer
  · rcases History.underway_cases hm hp hreq with ⟨hlast', rfl, last, hidle⟩ | ⟨hlast', q, hq, hreq'⟩
    · -- the call has just been given
      rw [hlast'] at hlast
      cases hlast
      rw [hsame rfl, hearlier (Nat.le_refl _), History.logAt_length]
      exact (he.log_eq_of_idle hone hidle rfl).symm
    · rw [hlast'] at hlast
      obtain ⟨begun', hlast'', hbegun, -⟩ := hb.underway t q request hq hreq'
      rw [hlast] at hlast''
      cases hlast''
      rw [hearlier (Nat.le_of_lt hbegun), hsame ?_]
      · exact hseq.underway t q begun request hq hreq' hlast
      · -- a move that ends a call leaves nobody under way
        cases hending : History.ending? ⟨m, move, m'⟩ past with
        | none => rfl
        | some c =>
          have hidle := History.idle_of_ending? hending
          have hone' : m'.clients.length = 1 := (length_clients hm).trans hone
          have hc := (List.getElem?_eq_some_iff.1 hidle).1
          have ht := (List.getElem?_eq_some_iff.1 hp).1
          replace hc : c.client < m'.clients.length := hc
          rw [show c.client = t by omega, hp] at hidle
          cases hidle
          cases hreq

/-- The only client of a log, at every moment of a run. -/
theorem sequential_of_reaches (h₀ : open? device settings 1 = .ok m₀) (h : Reaches m₀ past m) :
    ∃ flushed log, Inv (contents device) m ⟨past.log, past.durable, flushed⟩ ∧
      Extends m ⟨past.log, past.durable, flushed⟩ log ∧ Trace Answers past.calls log ∧
      Sequential past m log := by
  induction h with
  | start =>
    refine ⟨0, [], inv_start h₀, extends_start h₀, .nil, fun c hc => ?_,
      fun t p begun request hp hreq hlast => ?_⟩
    · cases hc
    · cases hlast
  | @move past m m' move reached next ih =>
    obtain ⟨flushed, log, hinv, he, htrace, hseq⟩ := ih
    have hb := History.booked_of_reaches h₀ reached
    have hone := length_clients_of_reaches h₀ reached
    obtain ⟨⟨log₁, durable₁, flushed₁⟩, log', ⟨rfl, rfl, -, -⟩, hinv', he', hends, hsame⟩ :=
      he.move hinv hb next
    have hsettled : ∀ c, History.ending? ⟨m, move, m'⟩ past = some c →
        Answers log c.request c.reply log' ∧ History.log (⟨m, move, m'⟩ :: past) = log' :=
      fun c hc => ⟨hends c hc, he'.log_eq_of_idle ((length_clients next).trans hone)
        (History.idle_of_ending? hc) rfl⟩
    exact ⟨flushed₁, log', hinv', he', htrace.move hends hsame,
      hseq.move hb next hsettled hsame he hone⟩
  | faults d _ same ih =>
    obtain ⟨flushed, log, hinv, he, htrace, hseq⟩ := ih
    exact ⟨flushed, log, hinv.faults same, ⟨he.ledger, he.flushed, he.waiting, he.settled⟩, htrace,
      ⟨hseq.finished, hseq.underway⟩⟩

/-- A log with one client is a byte string that grows at its end.

    Each call starts after the one before it is over. It is answered from what had been pushed when it
    was given, and afterwards its bytes have been pushed too, or the first of them if it has failed.
    `len` answers how many there are. If no device call has failed, no call has failed. And every call
    comes to its end. -/
theorem refines_byte_string (h₀ : open? device settings 1 = .ok m₀) (h : Reaches m₀ past m) :
    (past.calls.Pairwise fun a b => a.ended < b.begun) ∧
    (∀ c ∈ past.calls, Answers (past.logAt c.begun) c.request c.reply (past.logAt (c.ended + 1))) ∧
    (∃ log, Trace Answers past.calls log ∧ log <+: past.log ∧
      ((∀ p ∈ m.clients, p.isIdle = true) → past.log = log)) ∧
    m.state.length = past.log.length ∧
    (past.Unfailing → ∀ c ∈ past.calls,
      Exact (past.logAt c.begun) c.request c.reply (past.logAt (c.ended + 1))) ∧
    m.Settles := by
  obtain ⟨flushed, log, hinv, he, htrace, hseq⟩ := sequential_of_reaches h₀ h
  have hb := History.booked_of_reaches h₀ h
  have hone := length_clients_of_reaches h₀ h
  refine ⟨?_, hseq.finished, ⟨log, htrace, he.ledger, fun hidle => ?_⟩,
    hinv.consistent.buffers.length_eq, fun hu c hc => ?_, settles_of_reaches h₀ h⟩
  · refine hb.ordered.imp_of_mem fun ha hc hboth => hboth.2 ?_
    have := hb.given _ ha
    have := hb.given _ hc
    omega
  · refine he.settled fun t p hp => ?_
    have := hidle p (List.mem_of_getElem? hp)
    cases p <;> first | rfl | cases this
  · exact (hseq.finished c hc).sound ((sound_of_reaches h₀ h hu).2 c hc)

/-- An append, a flush and a read of what has been appended. -/
theorem refines_byte_string_read_back : ∃ (m₀ m : Machine Device.Memory)
    (past : History Device.Memory),
    open? { blockSize := 2, contents := .ofList [9, 9, 9] } { bufferBlocks := 1, cacheBlocks := 1 } 1 =
      .ok m₀ ∧ Reaches m₀ past m ∧ past.Unfailing ∧
    past.calls.map (fun c => (c.request, c.reply)) = [(.append [1], .ok (.offset 0)),
      (.flush, .ok .done), (.read 0 1, .ok (.bytes [1]))] ∧
    ∀ c ∈ past.calls, Exact (past.logAt c.begun) c.request c.reply (past.logAt (c.ended + 1)) := by
  let moves : List Move :=
    [.submit 0 (.append [1]), .step .writer, .step (.client 0), .step (.client 0),
      .submit 0 .flush, .step (.client 0), .step (.client 0), .step .writer, .step .writer,
      .step .writer, .step .writer, .step (.client 0),
      .submit 0 (.read 0 1), .step (.client 0), .step (.client 0), .step .writer, .step .writer,
      .step .writer, .step .writer, .step (.client 0), .step (.client 0), .step (.client 0),
      .step (.client 0)]
  have h₀ : open? ({ blockSize := 2, contents := .ofList [9, 9, 9] } : Device.Memory)
      { bufferBlocks := 1, cacheBlocks := 1 } 1 = .ok _ := rfl
  refine ⟨_, _, _, h₀, reaches_run? moves (by decide +kernel), by decide +kernel,
    by decide +kernel, ?_⟩
  exact (refines_byte_string h₀ (reaches_run? moves (by decide +kernel))).2.2.2.2.1
    (by decide +kernel)

end BlockLog.Machine
