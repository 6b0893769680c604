import BlockLog.Command.Session

/-! The round trip: a file is appended to a fresh log in pieces, read back in one go, and compared
    by its checksum. -/

namespace BlockLog.Command

variable {δ : Type} [Device δ]

/-- Append pieces one after the other, up to the first error. -/
def appendAll (log : Log δ) : List Bytes → Log δ × Except LogError Unit
  | [] => (log, .ok ())
  | piece :: rest =>
    match log.append piece with
    | (log, .ok _) => appendAll log rest
    | (log, .error e) => (log, .error e)

/-- The line for a round trip that went well. -/
def roundtripLine (len : Nat) (checksum : Checksum) : String :=
  s!"round-trip ok: {len} bytes, crc32 " ++ checksum.text

/-- The work of a round trip of `data` in pieces of `chunk` bytes. -/
def roundtripWork (data : Bytes) (chunk : Nat) (log : Log δ) :
    Log δ × Except Ending (List String) :=
  match appendAll log (data.chunks chunk) with
  | (log, .error e) => (log, .error (.failure (.log e)))
  | (log, .ok ()) =>
    match log.read 0 data.length with
    | (log, .error e) => (log, .error (.failure (.log e)))
    | (log, .ok back) =>
      if Checksum.ofBytes data = Checksum.ofBytes back then
        (log, .ok (roundtripLine data.length (Checksum.ofBytes back) :: log.totals.lines))
      else
        (log, .error (.failure
          (.checksumMismatch (Checksum.ofBytes data) (Checksum.ofBytes back))))

/-- The round trip. The input is read before the device is touched. -/
def roundtrip (files : FileTree) (device : String) (settings : Settings) (input : String)
    (chunk : Nat) : Report :=
  match files.readAll input with
  | .error cause =>
    { files, lines := [], ending := .failure (.log (.device (.io (.os cause)))) }
  | .ok data => withLog files device settings (roundtripWork data chunk)

end BlockLog.Command
