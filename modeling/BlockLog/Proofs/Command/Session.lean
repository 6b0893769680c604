import BlockLog.Command.Session
import BlockLog.Proofs.Log.Handle
import BlockLog.Proofs.Ring.Fifo

/-! A command on a regular file. With settings that pass the check and sizes that the memory has room for
    the log opens, and with no others; the work that is done on it may be anything; and when it has given
    its lines and the log is closed, the file has an image of what was appended.

        file before:   initial ─────────────────────────────┐
        log:             open ─ ─ work ─ ─ close            │
        file after:    ┌─ appended ─┬─ zeros ─┬─ initial, from there ─┐ -/

namespace BlockLog

/-- The size of the blocks of a log over a file. -/
def Settings.fileBlockSize (settings : Settings) : Nat :=
  settings.blockSize.getD Device.File.preferredBlockSize

variable {settings : Settings}

namespace Settings

/-- A log over a file can be opened with these settings: there is a block of write buffer and one of cache
    at least, the block size is a power of two, and there is memory for the buffers. -/
structure Usable (settings : Settings) : Prop where
  buffered : 0 < settings.bufferBlocks
  cached : 0 < settings.cacheBlocks
  powerOfTwo : isPowerOfTwo settings.fileBlockSize = true
  bufferFits : settings.fileBlockSize * settings.bufferBlocks + settings.fileBlockSize ≤ allocationLimit
  tableFits : settings.cacheBlocks * Cache.slotOverhead ≤ allocationLimit
  cacheFits : Cache.footprint settings.cacheBlocks settings.fileBlockSize ≤ countLimit

theorem check_eq_ok_iff : settings.check = .ok () ↔
    0 < settings.bufferBlocks ∧ 0 < settings.cacheBlocks ∧
      isPowerOfTwo settings.fileBlockSize = true := by
  have hpreferred : isPowerOfTwo Device.File.preferredBlockSize = true := by decide
  unfold check problem? fileBlockSize
  by_cases hbuffer : settings.bufferBlocks = 0
  · simp [hbuffer]
  · by_cases hcache : settings.cacheBlocks = 0
    · simp [hbuffer, hcache]
    · cases settings.blockSize with
      | none => simp [hbuffer, hcache, hpreferred, Nat.pos_of_ne_zero]
      | some size =>
        by_cases hsize : isPowerOfTwo size = true
        · simp [hbuffer, hcache, hsize, Nat.pos_of_ne_zero]
        · simp [hbuffer, hcache, hsize]

namespace Usable

theorem blockSize_pos (h : settings.Usable) : 0 < settings.fileBlockSize := by
  refine Nat.pos_of_ne_zero fun hz => ?_
  have hpower := h.powerOfTwo
  rw [hz] at hpower
  exact absurd hpower (by decide)

theorem check_eq (h : settings.Usable) : settings.check = .ok () :=
  check_eq_ok_iff.2 ⟨h.buffered, h.cached, h.powerOfTwo⟩

/-- With usable settings a log opens, for any number of clients. -/
theorem opens {δ : Type} [Device δ] (h : settings.Usable) (device : δ)
    (hsize : Device.blockSize device = settings.fileBlockSize) (clients : Nat) :
    ∃ m₀, Machine.open? device settings clients = .ok m₀ := by
  have hpos := h.blockSize_pos
  have hone : settings.fileBlockSize ≤ settings.fileBlockSize * settings.bufferBlocks :=
    Nat.le_mul_of_pos_right _ h.buffered
  have hbuffer := h.bufferFits
  obtain ⟨ring, hring⟩ := (Ring.new_isOk_iff _ _).2 ⟨hpos, h.buffered, hbuffer⟩
  obtain ⟨cache, hcache⟩ := (Cache.new_isOk_iff settings.cacheBlocks settings.fileBlockSize).2
    ⟨h.cached, h.tableFits, by omega, h.cacheFits⟩
  refine ⟨Machine.start device ring cache clients, ?_⟩
  simp only [Machine.open?, h.check_eq, hsize, hring, hcache, bind, Except.bind, pure, Except.pure,
    Region.allocate, if_neg (Nat.ne_of_gt hpos),
    if_neg (Nat.not_lt.2 (show settings.fileBlockSize + settings.fileBlockSize ≤ allocationLimit by
      omega))]

/-- Where a log opens the settings are usable. -/
theorem of_open? {δ : Type} [Device δ] {device : δ} {clients : Nat} {m₀ : Machine δ}
    (hcheck : settings.check = .ok ()) (hsize : Device.blockSize device = settings.fileBlockSize)
    (h₀ : Machine.open? device settings clients = .ok m₀) : settings.Usable := by
  obtain ⟨ring, cache, hring, hcache, -⟩ := Machine.open?_eq_ok h₀
  rw [hsize] at hring hcache
  obtain ⟨hbuffered, hcached, hpower⟩ := check_eq_ok_iff.1 hcheck
  obtain ⟨-, -, hbuffer⟩ := (Ring.new_isOk_iff ..).1 ⟨ring, hring⟩
  obtain ⟨-, htable, -, hall⟩ := (Cache.new_isOk_iff ..).1 ⟨cache, hcache⟩
  exact ⟨hbuffered, hcached, hpower, hbuffer, htable, hall⟩

end Usable

end Settings

namespace Command

open Machine LawfulDevice

/-- A file as a log finds it. -/
def found (path : String) (location : Location) (settings : Settings) (contents : Bytes) :
    Device.File where
  path := path
  location := location
  blockSize := settings.fileBlockSize
  contents := .ofList contents

variable {files tree : FileTree} {path : String} {location : Location}
  {initial : Bytes} {m₀ m₁ : Machine Device.File} {before during : History Device.File}
  {clients limit : Nat}

theorem openAt_eq (hfile : files.openFile path settings.create = .ok (tree, location, .file initial))
    (hs : settings.Usable)
    (h₀ : Machine.open? (found path location settings initial) settings 1 = .ok m₀) :
    Log.openAt files path settings = (tree, .ok { machine := m₀.settle }) := by
  rw [Log.openAt, hs.check_eq]
  simp only [Device.File.openAt, hfile]
  exact congrArg (Prod.mk tree) (congrArg (Except.map _) h₀)

/-- A log over a file opens with usable settings, and with no others. -/
theorem openAt_isOk_iff
    (hfile : files.openFile path settings.create = .ok (tree, location, .file initial)) :
    (∃ log, (Log.openAt files path settings).2 = .ok log) ↔ settings.Usable := by
  constructor
  · rintro ⟨log, hlog⟩
    cases hcheck : settings.check with
    | error e =>
      rw [Log.openAt, hcheck] at hlog
      cases hlog
    | ok =>
      rw [Log.openAt, hcheck] at hlog
      simp only [Device.File.openAt, hfile] at hlog
      cases h₀ : Machine.open? (found path location settings initial) settings 1 with
      | error e =>
        have hlog : Except.map _ (Machine.open? (found path location settings initial) settings 1) =
          Except.ok log := hlog
        rw [h₀] at hlog
        cases hlog
      | ok m₀ => exact .of_open? hcheck rfl h₀
  · intro hs
    obtain ⟨m₀, h₀⟩ := hs.opens (found path location settings initial) rfl 1
    exact ⟨_, congrArg Prod.snd (openAt_eq hfile hs h₀)⟩

/-- A log that has just been opened is its owner's. -/
theorem handed_open (h₀ : Machine.open? (found path location settings initial) settings clients = .ok m₀)
    (howner : 0 < clients) (hroom : limit + settings.fileBlockSize < Device.File.offsetLimit) :
    Handed (found path location settings initial) settings clients limit [] m₀ m₀ := by
  obtain ⟨ring, cache, -, -, rfl⟩ := open?_eq_ok h₀
  refine ⟨h₀, fun _ => trivial, fun n hn => ?_, .start, fun p hp => ?_, howner, rfl, .same⟩
  · exact Nat.lt_of_le_of_lt hn hroom
  · rw [List.eq_of_mem_replicate hp]
    rfl

theorem contents_found : contents (found path location settings initial) = initial :=
  Store.toList_ofList _

/-- A log that has just been opened over a file has nothing due. -/
theorem due_open (h₀ : Machine.open? (found path location settings initial) settings clients = .ok m₀) :
    m₀.due (contents (found path location settings initial)) (History.log (δ := Device.File) [])
      (History.deviceCalls (δ := Device.File) []) =
        { blockSize := settings.fileBlockSize, slots := settings.cacheBlocks, initial } := by
  rw [contents_found]
  exact due_start h₀ initial

/-- Where the last call of a log with one client has a flush and is over, the log has done what the prompt log
    does, whenever the writer has taken its steps. -/
theorem served_open {m : Machine Device.File} {past : History Device.File}
    (h₀ : Machine.open? (found path location settings initial) settings 1 = .ok m₀)
    (h : Reaches m₀ past m) (hidle : ∀ p ∈ m.clients, p.isIdle = true)
    (hroom : past.given + settings.fileBlockSize < Device.File.offsetLimit) {earlier : List Request}
    {request : Request} (hrequests : past.requests = earlier ++ [request])
    (hflush : request.isFlushing = true) {σ : Prompt} (hσ : σ = earlier.foldl Prompt.call
      { blockSize := settings.fileBlockSize, slots := settings.cacheBlocks, initial }) :
    past.Unfailing ∧ m.state.totals =
      { appendedBytes := (σ.call request).log.length, writtenBlocks := (σ.call request).written,
        flushes := m.state.totals.flushes, hits := (σ.call request).hits,
        misses := (σ.call request).misses } ∧
    m.device.contents.toList = (σ.call request).stored ∧
    m.reply? 0 = some (request.answer σ.log) := by
  have H := handed_open h₀ Nat.one_pos hroom
  have hle : History.given (δ := Device.File) [] + past.given ≤ past.given :=
    Nat.le_of_eq (Nat.zero_add _)
  have hu := H.unfailing h hle
  rw [List.append_nil] at hu
  rw [← due_open h₀] at hσ
  exact ⟨hu, H.served_last h (givenBy_of_reaches h₀ h) hle hidle hrequests hflush hσ⟩

/-- Closing a log that has been handed to its owner leaves an image of everything appended in the file. -/
theorem close_eq {log : Log Device.File} {ρ : Prompt}
    (H : Handed (found path location settings initial) settings clients limit before m₀ m₁)
    (A : Rests m₁ during log) (hopen : .close ∉ during.requests)
    (hle : before.given + during.given ≤ limit)
    (hρ : m₁.due initial before.log before.deviceCalls = ρ) (hstores : ρ.Stores)
    (hpos : 0 < ρ.blockSize) : log.close.2 = .ok () ∧ ∀ files : FileTree,
      log.close.1.saveTo files = files.put location
        (.file (during.requests.foldl Prompt.call ρ).contents) := by
  obtain ⟨during', A', hrequests, hreply⟩ := H.await A hopen .close hle
  have hgiven : before.given + during'.given ≤ limit := by
    rw [History.given_of_requests hrequests]
    exact hle
  have hstored := (H.served A' hgiven rfl).2.1
  rw [contents_found, hρ, hrequests, List.foldl_append] at hstored
  have hlocation := Device.File.location_of_becomes (H.becomes.trans A'.becomes)
  refine ⟨?_, fun files => ?_⟩
  · show (log.await .close).2.map _ = _
    rw [hreply]
    rfl
  · have hlist : log.close.1.contents.toList = _ := hstored.trans (hstores.close during.requests hpos)
    rw [Device.File.saveTo, show log.close.1.location = location from hlocation, hlist]

/-- A command whose work gives lines and leaves a log that closes well is a success. -/
theorem withLog_eq {work : Log Device.File → Log Device.File × Except Ending (List String)}
    {log : Log Device.File} {lines : List String} {after : Bytes}
    (hfile : files.openFile path settings.create = .ok (tree, location, .file initial))
    (hs : settings.Usable)
    (h₀ : Machine.open? (found path location settings initial) settings 1 = .ok m₀)
    (hwork : work { machine := m₀.settle } = (log, .ok lines)) (hclosed : log.close.2 = .ok ())
    (hsaved : ∀ files : FileTree, log.close.1.saveTo files = files.put location (.file after)) :
    withLog files path settings work =
      { files := tree.put location (.file after), lines, ending := .success } := by
  rw [withLog, openAt_eq hfile hs h₀]
  simp only [hwork]
  rw [hsaved, hclosed]

end Command

end BlockLog
