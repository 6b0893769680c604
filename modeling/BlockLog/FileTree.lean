import BlockLog.Bytes
import BlockLog.Error

/-! The files a program can reach by path: a tree of folders with a root, a working folder in it,
    and the two character devices that every system has.

    A path is followed one component after the other, from the root if it starts with a slash and
    from the working folder otherwise. Every component but the last has to be a folder, and the
    first that is not decides the error. The last one is only a name in the folder that the others
    lead to, and what is wrong with it shows when it is looked up. A path that ends in a slash names
    a folder, so no file can be created by it; that is found before the name is looked up. -/

namespace BlockLog

/-- A place in the tree: the components that lead to it from the root. -/
abbrev Location := List String

/-- What is found at a place. -/
inductive Entry where
  | file (contents : Bytes)
  | folder
  | characterDevice
  deriving DecidableEq

/-- Everything there is, by location. The root itself is always there. -/
structure FileTree where
  working : Location
  entries : List (Location × Entry)
  deriving DecidableEq

namespace FileTree

/-- What is at a location, if anything. -/
def entry? (t : FileTree) (location : Location) : Option Entry :=
  if location = [] then some .folder
  else (t.entries.find? fun e => e.1 = location).map (·.2)

/-- The tree with `entry` at `location`, in place of whatever was there. -/
def put (t : FileTree) (location : Location) (entry : Entry) : FileTree :=
  { t with entries := (location, entry) :: t.entries.filter fun e => e.1 ≠ location }

/-! ### Paths -/

/-- The longest name of one component, in bytes. -/
def nameLimit : Nat := 255

/-- The longest path, in bytes. -/
def pathLimit : Nat := 4095

/-- The components of a path, without the empty ones. -/
def components (path : String) : List String :=
  ((path.toList.splitOn '/').filter (· ≠ [])).map String.ofList

def isAbsolute (path : String) : Bool := path.toList.head? == some '/'

def endsInSlash (path : String) : Bool := path.toList.getLast? == some '/'

/-- The folder that the first component of a path is looked up in. -/
def origin (t : FileTree) (path : String) : Location := if isAbsolute path then [] else t.working

/-- The folder that holds a location; the root holds itself. -/
def parent (location : Location) : Location := location.dropLast

/-- What the components of a path lead to: a folder that is there, or a name in one, whether or not
    anything has that name. -/
inductive Target where
  | folder (location : Location)
  | name (holder : Location) (name : String)

/-- Go from a folder to one that it holds, to itself, or to the one that holds it. -/
def enter (t : FileTree) (here : Location) (name : String) : Except OsError Location :=
  if name = "." then .ok here
  else if name = ".." then .ok (parent here)
  else if nameLimit < name.utf8ByteSize then .error .nameTooLong
  else match t.entry? (here ++ [name]) with
    | some .folder => .ok (here ++ [name])
    | some _ => .error .notADirectory
    | none => .error .noSuchFile

/-- Follow components from a folder on. -/
def follow (t : FileTree) : List String → Location → Except OsError Target
  | [], here => .ok (.folder here)
  | [last], here =>
    if last = "." then .ok (.folder here)
    else if last = ".." then .ok (.folder (parent here))
    else .ok (.name here last)
  | name :: rest, here => (t.enter here name).bind (t.follow rest)

/-- What a path leads to. -/
def resolve (t : FileTree) (path : String) : Except OsError Target :=
  if path.toList.contains (Char.ofNat 0) then .error .nulInName
  else if path = "" then .error .noSuchFile
  else if pathLimit < path.utf8ByteSize then .error .nameTooLong
  else t.follow (components path) (t.origin path)

/-! ### Making a tree -/

/-- Go down components from a folder, and make a folder wherever there is nothing. -/
def dig (t : FileTree) : List String → Location → FileTree × Location
  | [], here => (t, here)
  | name :: rest, here =>
    if name = "." then t.dig rest here
    else if name = ".." then t.dig rest (parent here)
    else if (t.entry? (here ++ [name])).isNone then
      (t.put (here ++ [name]) .folder).dig rest (here ++ [name])
    else t.dig rest (here ++ [name])

/-- The tree with a folder at `path`, and all the folders on the way. -/
def withFolder (t : FileTree) (path : String) : FileTree :=
  (t.dig (components path) (t.origin path)).1

/-- The tree with a file at `path`, and all the folders on the way. A path that ends at a folder
    leaves the tree as it is. -/
def withFile (t : FileTree) (path : String) (contents : Bytes) : FileTree :=
  let (dug, holder) := t.dig (components path).dropLast (t.origin path)
  match dug.follow (components path) (t.origin path) with
  | .ok (.name _ name) => dug.put (holder ++ [name]) (.file contents)
  | _ => t

/-- A tree with nothing in it but the working folder and the character devices. -/
def fresh (working : Location) : FileTree :=
  let devices : FileTree :=
    { working := working
      entries :=
        [(["dev"], .folder), (["dev", "null"], .characterDevice),
         (["dev", "zero"], .characterDevice)] }
  (devices.dig working []).1

/-! ### Opening and reading -/

/-- Open the file at `path` for reading and writing, creating it empty if it is missing and `create`
    is set. The answer has the tree, with the new file if one was created, where the file is, and
    what was found there. -/
def openFile (t : FileTree) (path : String) (create : Bool) :
    Except OsError (FileTree × Location × Entry) :=
  match t.resolve path with
  | .error e => .error e
  | .ok (.folder _) => .error .isADirectory
  | .ok (.name holder name) =>
    let location := holder ++ [name]
    if create && endsInSlash path then .error .isADirectory
    else if nameLimit < name.utf8ByteSize then .error .nameTooLong
    else match t.entry? location with
      | some .folder => .error .isADirectory
      | some entry => if endsInSlash path then .error .notADirectory else .ok (t, location, entry)
      | none =>
        if create then .ok (t.put location (.file []), location, .file [])
        else .error .noSuchFile

/-- All that is read from the file at `path`; a character device counts as empty. -/
def readAll (t : FileTree) (path : String) : Except OsError Bytes :=
  match t.openFile path false with
  | .error e => .error e
  | .ok (_, _, .file contents) => .ok contents
  | .ok _ => .ok []

/-- The contents of the regular file that `path` names, if it names one. -/
def fileAt? (t : FileTree) (path : String) : Option Bytes :=
  match t.openFile path false with
  | .ok (_, _, .file contents) => some contents
  | _ => none

/-- The tree with the regular file that `path` names cut down or filled up with zeros to `len`
    bytes. Where there is no such file nothing happens. -/
def truncate (t : FileTree) (path : String) (len : Nat) : FileTree :=
  match t.openFile path false with
  | .ok (_, location, .file contents) => t.put location (.file (contents.resize len))
  | _ => t

end FileTree

end BlockLog
