import BlockLog.Command

/-! The program on the system's own files. What the command line names is looked up first and handed
    to the program as a tree; afterwards the files it has changed are written back. -/

namespace BlockLog.Main

/-- The absolute path of a location. -/
def pathOf (location : Location) : String := "/" ++ "/".intercalate location

/-- What the system has at a location, if anything. -/
def probe (location : Location) : IO (Option Entry) := do
  try
    let contents ← IO.FS.readBinFile (pathOf location)
    return some (.file contents.data.toList)
  catch
    | .inappropriateType .. => return some .folder
    | _ => return none

/-- The tree with what the system has at each step along a path. -/
def addPath (tree : FileTree) (path : String) : IO FileTree := do
  let mut tree := tree
  let mut here := tree.origin path
  for name in FileTree.components path do
    let next := here ++ [name]
    if name ≠ "." && name ≠ ".." && (tree.entry? next).isNone then
      match ← probe next with
      | some entry => tree := tree.put next entry
      | none => return tree
    match tree.enter here name with
    | .ok folder => here := folder
    | .error _ => return tree
  return tree

/-- The paths that a command line names. -/
def paths (words : List String) : List String :=
  match Options.parse words with
  | .ok { device, task := .roundtrip input _, .. } => [device, input]
  | .ok options => [options.device]
  | .error _ => []

/-- Write the file at a path back, if it is not what it was. -/
def save (before after : FileTree) (path : String) : IO Unit := do
  match after.fileAt? path with
  | some contents =>
    if before.fileAt? path ≠ some contents then
      IO.FS.writeBinFile path ⟨contents.toArray⟩
  | none => return

/-- What is said when the command line makes no sense. -/
def usage : String :=
  "usage: --version | --device PATH [--block-size N] [--write-buffer-blocks N] " ++
    "[--read-cache-blocks N] [--create] (roundtrip --input PATH [--chunk N] | " ++
    "stress [--threads N] [--records N] [--size N] | dump [--offset N] [--len N])"

/-- The text that goes to the error output, if any does. -/
def complaint? : Ending → Option String
  | .success => none
  | .failure cause => some cause.message
  | .misuse => some usage
  | .crash => some "the block size is zero, or more memory was asked for than there can be"

end BlockLog.Main

open BlockLog BlockLog.Main in
/-- Run the program on the words of the command line. -/
def main (words : List String) : IO UInt32 := do
  let working := FileTree.components (← IO.currentDir).toString
  let before ← (paths words).foldlM addPath (FileTree.fresh working)
  let report := Command.run before words
  report.lines.forM IO.println
  (paths words).forM (save before report.files)
  match complaint? report.ending with
  | some text => IO.eprintln text
  | none => pure ()
  return report.ending.exitCode.toUInt32
