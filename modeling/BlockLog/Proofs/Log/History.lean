import BlockLog.Log.Schedule
import BlockLog.Proofs.Device

/-! Runs of a log and what can be told of them. A run is a list of moments, the latest first: the
    machine before a move, the move, and the machine after it. Between two moments something may be
    done to the faults of the device, and to nothing else. What has been pushed, which calls are
    over, what the device has been asked for, how much of the log is on it: all of that is read off
    the moments.

        m₀ ── move ──▶ · ── faults ──▶ · ── move ──▶ · ── move ──▶ m
              └ oldest moment                              └ latest moment -/

namespace BlockLog

/-- One move of a run. -/
structure Moment (δ : Type) where
  before : Machine δ
  move : Move
  after : Machine δ

/-- The moments of a run, the latest first. -/
abbrev History (δ : Type) := List (Moment δ)

/-- The same contents and block size; only the faults may be others. -/
def SameStore {δ : Type} [Device δ] [LawfulDevice δ] (d d' : δ) : Prop :=
  Device.blockSize d' = Device.blockSize d ∧
    LawfulDevice.contents d' = LawfulDevice.contents d

/-- A call to a device, and how it ended. -/
inductive DeviceCall where
  | write (offset : Nat) (block : Bytes) (outcome : WriteOutcome)
  | read (offset len : Nat) (outcome : Except DeviceError Unit)
  | sync (outcome : Except DeviceError Unit)

/-- How many bytes of a log of `length` bytes are on the device after a call to it, if there were
    `before` of them. -/
def DeviceCall.durable (call? : Option DeviceCall) (length before : Nat) : Nat :=
  match call? with
  | some (.write offset block .done) => min (offset + block.length) length
  | _ => before

/-- The device did what it was asked for. -/
def DeviceCall.Succeeded : DeviceCall → Prop
  | .write _ _ outcome => outcome = .done
  | .read _ _ outcome => outcome = .ok ()
  | .sync outcome => outcome = .ok ()

instance : DecidablePred DeviceCall.Succeeded
  | .write _ _ outcome => inferInstanceAs (Decidable (outcome = .done))
  | .read _ _ (.ok ()) | .sync (.ok ()) => .isTrue rfl
  | .read _ _ (.error _) | .sync (.error _) => .isFalse nofun

/-- A call that is over. It was submitted at move number `begun` of the run and replied to at move
    number `ended`. -/
structure Call where
  client : Nat
  request : Request
  begun : Nat
  ended : Nat
  reply : Reply

variable {δ : Type} [Device δ]

namespace Machine

/-- The machine with another device in the place of its own. -/
def withDevice (m : Machine δ) (d : δ) : Machine δ := { m with device := d }

/-- From `m₀` the moves of a history lead to `m`, with faults of the device set and cleared at any
    time in between. -/
inductive Reaches [LawfulDevice δ] (m₀ : Machine δ) : History δ → Machine δ → Prop
  | start : Reaches m₀ [] m₀
  | move {past m m'} (move : Move) (reached : Reaches m₀ past m) (next : m.move? move = some m') :
    Reaches m₀ (⟨m, move, m'⟩ :: past) m'
  | faults {past m} (d : δ) (reached : Reaches m₀ past m) (same : SameStore m.device d) :
    Reaches m₀ past (m.withDevice d)

/-- Runs can be put one behind the other. -/
theorem Reaches.trans [LawfulDevice δ] {m₀ m m' : Machine δ} {past more : History δ}
    (h : Reaches m₀ past m) (h' : Reaches m more m') : Reaches m₀ (more ++ past) m' := by
  induction h' with
  | start => exact h
  | move move _ next ih => exact .move move ih next
  | faults d _ same ih => exact .faults d ih same

/-- A run goes on with a call. -/
theorem Reaches.submit [LawfulDevice δ] {m₀ m m' : Machine δ} {past : History δ} {t : Nat}
    {request : Request} (h : Reaches m₀ past m) (hs : m.submit? t request = some m') :
    Reaches m₀ (⟨m, .submit t request, m'⟩ :: past) m' :=
  .move (.submit t request) h hs

/-- The last move of a run, and what came before it. -/
theorem Reaches.last [LawfulDevice δ] {m₀ m : Machine δ} {now : Moment δ} {past : History δ}
    (h : Reaches m₀ (now :: past) m) : Reaches m₀ past now.before ∧
      now.before.move? now.move = some now.after ∧
      ∃ d, SameStore now.after.device d ∧ m = now.after.withDevice d := by
  generalize hall : now :: past = all at h
  induction h with
  | start => cases hall
  | @move _ _ m' move reached next =>
    cases hall
    exact ⟨reached, next, m'.device, ⟨rfl, rfl⟩, rfl⟩
  | faults d _ same ih =>
    obtain ⟨hbefore, hmove, d', hsame, rfl⟩ := ih hall
    exact ⟨hbefore, hmove, d, ⟨same.1.trans hsame.1, same.2.trans hsame.2⟩, rfl⟩

/-- The moments of a list of moves, made one after the other for as long as they can be made. -/
def moments (m : Machine δ) : List Move → History δ
  | [] => []
  | move :: rest =>
    match m.move? move with
    | some next => moments next rest ++ [⟨m, move, next⟩]
    | none => []

/-- A schedule that goes through is a run. -/
theorem reaches_of_run? [LawfulDevice δ] : ∀ {m m' : Machine δ} (moves : List Move),
    m.run? moves = some m' → Reaches m (m.moments moves) m'
  | m, m', [], h => by
    cases h
    exact .start
  | m, m', move :: rest, h => by
    unfold run? at h
    obtain ⟨next, hn, hrest⟩ := Option.bind_eq_some_iff.1 h
    rw [moments, hn]
    exact (Reaches.start.move move hn).trans (reaches_of_run? rest hrest)

theorem reaches_run? [LawfulDevice δ] {m : Machine δ} (moves : List Move)
    (h : (m.run? moves).isSome = true) : Reaches m (m.moments moves) ((m.run? moves).get h) :=
  reaches_of_run? moves (Option.some_get h).symm

/-! ### What a move does -/

/-- The bytes that a move pushes into the ring. -/
def pushes (m : Machine δ) : Move → Bytes
  | .step (.client t) =>
    match m.clients[t]? with
    | some (.appendAdmitted data) =>
      if m.state.failure = none then data.take (m.state.ring.push data).2 else []
    | some (.appendWaiting _ rest _ _) =>
      if m.state.failure = none then rest.take (m.state.ring.push rest).2 else []
    | _ => []
  | _ => []

/-- What a move asks of the device, and the answer. -/
def deviceCall? (m : Machine δ) : Move → Option DeviceCall
  | .step .writer =>
    match m.writer with
    | .inFlight offset block => some (.write offset block (Device.write m.device offset block).outcome)
    | _ => none
  | .step (.client t) =>
    match m.clients[t]? with
    | some (.reading offset len got) =>
      let blockSize := m.state.ring.blockSize
      let block := (offset + got.length) / blockSize
      if got.length < len ∧ m.state.cache.get? block = none then
        some (.read (block * blockSize) blockSize
          (Device.read m.device (block * blockSize) blockSize).outcome)
      else none
    | some (.syncing _ _) => some (.sync (Device.sync m.device).outcome)
    | _ => none
  | _ => none

theorem deviceCall?_of_inFlight {m : Machine δ} {offset : Nat} {block : Bytes}
    (h : m.writer = .inFlight offset block) : m.deviceCall? (.step .writer) =
      some (.write offset block (Device.write m.device offset block).outcome) := by
  simp [deviceCall?, h]

theorem deviceCall?_of_not_inFlight {m : Machine δ} (h : m.writer.isInFlight = false) :
    m.deviceCall? (.step .writer) = none := by
  cases hw : m.writer with
  | inFlight offset block =>
    rw [hw] at h
    cases h
  | _ => simp only [deviceCall?, hw]

theorem deviceCall?_of_reading {m : Machine δ} {t offset len : Nat} {got : Bytes}
    (hp : m.clients[t]? = some (.reading offset len got)) (hmore : got.length < len)
    (hmiss : m.state.cache.get? ((offset + got.length) / m.state.ring.blockSize) = none) :
    m.deviceCall? (.step (.client t)) = some
      (.read ((offset + got.length) / m.state.ring.blockSize * m.state.ring.blockSize)
        m.state.ring.blockSize (Device.read m.device ((offset + got.length) /
          m.state.ring.blockSize * m.state.ring.blockSize) m.state.ring.blockSize).outcome) := by
  simp only [deviceCall?, hp]
  rw [if_pos ⟨hmore, hmiss⟩]

theorem deviceCall?_of_syncing {m : Machine δ} {t : Nat} {flushed joined : Except LogError Unit}
    (hp : m.clients[t]? = some (.syncing flushed joined)) :
    m.deviceCall? (.step (.client t)) = some (.sync (Device.sync m.device).outcome) := by
  simp only [deviceCall?, hp]

end Machine

/-! ### What can be told of a run -/

namespace History

/-- The bytes pushed so far: the log. -/
def log : History δ → Bytes
  | [] => []
  | now :: earlier => log earlier ++ now.before.pushes now.move

/-- What the device has been asked for so far, the oldest call first. -/
def deviceCalls : History δ → List DeviceCall
  | [] => []
  | now :: earlier => deviceCalls earlier ++ (now.before.deviceCall? now.move).toList

/-- How many bytes of the log are on the device: those up to the end of the block that it took last,
    as far as that one holds bytes of the log. -/
def durable : History δ → Nat
  | [] => 0
  | now :: earlier =>
    DeviceCall.durable (now.before.deviceCall? now.move) (log earlier).length (durable earlier)

/-- The last call that client `t` was given, and the number of the move that gave it. -/
def lastCall (t : Nat) : History δ → Option (Nat × Request)
  | [] => none
  | now :: earlier =>
    match now.move with
    | .submit u request => if u = t then some (earlier.length, request) else lastCall t earlier
    | .step _ => lastCall t earlier

/-- The call that a move ends, if it ends one. -/
def ending? (now : Moment δ) (earlier : History δ) : Option Call :=
  match now.move with
  | .step (.client t) =>
    match now.after.reply? t, lastCall t earlier with
    | some reply, some (begun, request) =>
      some { client := t, request, begun, ended := earlier.length, reply }
    | _, _ => none
  | _ => none

/-- The calls that are over, in the order in which they ended. -/
def calls : History δ → List Call
  | [] => []
  | now :: earlier => calls earlier ++ (ending? now earlier).toList

/-- No call to the device has failed. -/
def Unfailing (past : History δ) : Prop := ∀ call ∈ deviceCalls past, call.Succeeded

instance (past : History δ) : Decidable past.Unfailing :=
  inferInstanceAs (Decidable (∀ call ∈ deviceCalls past, call.Succeeded))

/-- No fault was set when a move was made. -/
def Faultless [LawfulDevice δ] (past : History δ) : Prop :=
  ∀ now ∈ past, LawfulDevice.Faultless now.before.device

/-- What had been pushed before move number `n`. -/
def logAt (past : History δ) (n : Nat) : Bytes := log (past.drop (past.length - n))

/-- The moves are all steps: no call is given. -/
def OnlySteps (past : History δ) : Prop := ∀ now ∈ past, ∃ actor, now.move = .step actor

/-- No device call of the last move failed, and none of those before. -/
theorem Unfailing.cons {now : Moment δ} {past : History δ} (h : Unfailing (now :: past)) :
    Unfailing past ∧ ∀ call, now.before.deviceCall? now.move = some call → call.Succeeded := by
  refine ⟨fun call hc => h call (List.mem_append_left _ hc), fun call hc => h call ?_⟩
  exact List.mem_append_right _ (Option.mem_toList.2 hc)

omit [Device δ] in
theorem logAt_cons {now : Moment δ} {past : History δ} {n : Nat} (h : n ≤ past.length) :
    logAt (now :: past) n = logAt past n := by
  rw [logAt, logAt, List.length_cons, Nat.sub_add_comm h, List.drop_succ_cons]

omit [Device δ] in
theorem logAt_length (past : History δ) : logAt past past.length = log past := by
  rw [logAt, Nat.sub_self, List.drop_zero]

omit [Device δ] in
/-- A call that is given pushes nothing yet. -/
theorem log_submit (m m' : Machine δ) (t : Nat) (request : Request) (past : History δ) :
    log (⟨m, .submit t request, m'⟩ :: past) = past.log := List.append_nil _

omit [Device δ] in
theorem log_writer (m m' : Machine δ) (past : History δ) :
    log (⟨m, .step .writer, m'⟩ :: past) = past.log := List.append_nil _

theorem deviceCalls_submit (m m' : Machine δ) (t : Nat) (request : Request) (past : History δ) :
    deviceCalls (⟨m, .submit t request, m'⟩ :: past) = past.deviceCalls := List.append_nil _

omit [Device δ] in
theorem log_append (more past : History δ) : ∃ pushed, log (more ++ past) = log past ++ pushed := by
  induction more with
  | nil => exact ⟨[], (List.append_nil _).symm⟩
  | cons now more ih =>
    obtain ⟨pushed, hp⟩ := ih
    exact ⟨pushed ++ now.before.pushes now.move, by
      rw [List.cons_append, log, hp, List.append_assoc]⟩

end History

end BlockLog
