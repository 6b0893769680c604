import BlockLog.Settings

/-! The command line. Options for the device come first, then the name of a command, then the
    command's own options. An option is written `--name value`, `--name=value`, or by its letter
    `-x value`, `-xvalue`, `-x=value`; a flag is its name alone. A value that is a word of its own
    cannot start with a dash, unless the dash is all of it. No option may be given twice. The words
    are read one after the other, and the first that is wrong decides, unless the version has been
    asked for before it. -/

namespace BlockLog

/-- What a command line asks for. -/
inductive Task where
  /-- Append a file to a fresh log in pieces of `chunk` bytes and read it back. -/
  | roundtrip (input : String) (chunk : Nat)
  /-- Append records from several threads at once and check each one. -/
  | stress (threads records size : Nat)
  /-- Show the bytes of the device around a range. -/
  | dump (offset len : Nat)
  deriving DecidableEq

/-- A command line. -/
structure Options where
  device : String
  settings : Settings
  task : Task
  deriving DecidableEq

/-- Why a command line gives nothing to do. -/
inductive NoTask where
  /-- It is written wrongly. -/
  | misuse
  /-- It asks for the version. -/
  | version
  deriving DecidableEq

namespace Options

/-! ### Words -/

/-- What an option is for, and with that, which values it can have. -/
inductive OptionKind where
  /-- It says something by being there. -/
  | flag
  /-- It asks for the version, and no word after it counts. -/
  | version
  /-- It has a path: any value but the empty one. -/
  | path
  /-- It has a number. -/
  | number
  deriving DecidableEq

/-- How an option is written: its name, and its letter if it has one. -/
structure OptionForm where
  name : String
  letter : Option Char := none
  kind : OptionKind := .number

/-- A word of the command line by its dashes. -/
inductive Word where
  /-- No option. -/
  | plain
  /-- Two dashes alone: no option comes after it. -/
  | divider
  | named (name : String) (value : Option String)
  | lettered (letter : Char) (value : Option String)

/-- Cut a long option at its first equals sign. -/
def splitNamed (text : List Char) : Word :=
  let name := String.ofList (text.takeWhile (· ≠ '='))
  match text.dropWhile (· ≠ '=') with
  | [] => .named name none
  | _ :: value => .named name (some (String.ofList value))

/-- Tell what kind of word it is. -/
def Word.of (text : String) : Word :=
  match text.toList with
  | ['-', '-'] => .divider
  | '-' :: '-' :: rest => splitNamed rest
  | ['-', letter] => .lettered letter none
  | '-' :: letter :: '=' :: rest => .lettered letter (some (String.ofList rest))
  | '-' :: letter :: rest => .lettered letter (some (String.ofList rest))
  | _ => .plain

/-- The word can be the value of the option before it. -/
def Word.isPlain : Word → Bool
  | .plain => true
  | _ => false

/-! ### Values -/

/-- The value of a decimal digit. -/
def digit? (c : Char) : Option Nat := if c.isDigit then some (c.toNat - '0'.toNat) else none

/-- Read decimal digits behind the number read so far. -/
def readDigits? : List Char → Nat → Option Nat
  | [], n => some n
  | c :: rest, n => (digit? c).bind fun d => readDigits? rest (10 * n + d)

/-- The largest number that can be given. -/
def numberLimit : Nat := (1 <<< 64) - 1

/-- A number is decimal digits, with a plus sign in front if wanted, up to the limit. -/
def number? (text : String) : Option Nat :=
  let digits :=
    match text.toList with
    | '+' :: rest => rest
    | all => all
  if digits = [] then none else (readDigits? digits 0).filter (· ≤ numberLimit)

/-- Whether an option of this kind can have this value. -/
def OptionKind.accepts : OptionKind → String → Bool
  | .path, value => value ≠ ""
  | .number, value => (number? value).isSome
  | _, _ => true

/-! ### Options -/

/-- The options found so far, with their values. -/
abbrev Found := List (String × String)

/-- Note an option down, with a value that it can have. None may come twice. -/
def note (found : Found) (form : OptionForm) (value : String) : Except NoTask Found :=
  if found.any (·.1 == form.name) then .error .misuse
  else if form.kind.accepts value then .ok ((form.name, value) :: found)
  else .error .misuse

/-- Read options up to the first word that is none, and give the words from there on. A divider must
    be the last word. What stands behind a letter without a value would be more letters, but after
    the letter for the version they are not looked at. -/
def scan (forms : List OptionForm) :
    List String → Found → Except NoTask (Found × List String)
  | [], found => .ok (found, [])
  | word :: rest, found =>
    let take (form : OptionForm) (attached : Option String) :
        Except NoTask (Found × List String) :=
      match form.kind, attached with
      | .version, none => .error .version
      | .flag, none => (note found form "").bind fun found => scan forms rest found
      | .version, some _ | .flag, some _ => .error .misuse
      | _, some value => (note found form value).bind fun found => scan forms rest found
      | _, none =>
        match rest with
        | value :: rest =>
          if (Word.of value).isPlain then
            (note found form value).bind fun found => scan forms rest found
          else .error .misuse
        | [] => .error .misuse
    match Word.of word with
    | .plain => .ok (found, word :: rest)
    | .divider => if rest = [] then .ok (found, []) else .error .misuse
    | .named name value =>
      match forms.find? fun f => f.name == name with
      | some form => take form value
      | none => .error .misuse
    | .lettered letter value =>
      match forms.find? fun f => f.letter == some letter with
      | some form => take form (if form.kind = .version then none else value)
      | none => .error .misuse

/-- The value of an option. -/
def value? (found : Found) (name : String) : Option String := found.lookup name

/-- The value of an option that has to be there. -/
def required (found : Found) (name : String) : Except NoTask String :=
  match value? found name with
  | some value => .ok value
  | none => .error .misuse

/-- The number given for an option, if it is there. -/
def givenNumber? (found : Found) (name : String) : Option Nat := (value? found name).bind number?

/-- The number given for an option, or its default if the option is absent. -/
def numberOr (found : Found) (name : String) (default : Nat) : Nat :=
  (givenNumber? found name).getD default

/-! ### The command line as a whole -/

/-- The options for the device, and the one that asks for the version. -/
def deviceForms : List OptionForm :=
  [{ name := "device", letter := some 'd', kind := .path },
   { name := "block-size", letter := some 'b' },
   { name := "write-buffer-blocks" },
   { name := "read-cache-blocks" },
   { name := "create", kind := .flag },
   { name := "version", letter := some 'V', kind := .version }]

/-- The options of the round trip. -/
def roundtripForms : List OptionForm :=
  [{ name := "input", letter := some 'i', kind := .path }, { name := "chunk", letter := some 'c' }]

/-- The options of the stress test. -/
def stressForms : List OptionForm :=
  [{ name := "threads", letter := some 't' }, { name := "records", letter := some 'r' },
   { name := "size", letter := some 's' }]

/-- The options of the dump. -/
def dumpForms : List OptionForm :=
  [{ name := "offset", letter := some 'o' }, { name := "len", letter := some 'l' }]

/-- The settings that the options for the device give. -/
def readSettings (found : Found) : Settings :=
  { bufferBlocks := numberOr found "write-buffer-blocks" 32
    cacheBlocks := numberOr found "read-cache-blocks" 256
    blockSize := givenNumber? found "block-size"
    create := (value? found "create").isSome }

/-- Read all of a command's words as its options. -/
def scanAll (forms : List OptionForm) (words : List String) : Except NoTask Found :=
  match scan forms words [] with
  | .ok (found, []) => .ok found
  | .ok _ => .error .misuse
  | .error e => .error e

/-- A task, by the name of its command, with its own options. -/
def readTask (name : String) (words : List String) : Except NoTask Task :=
  if name = "roundtrip" then do
    let found ← scanAll roundtripForms words
    return .roundtrip (← required found "input") (numberOr found "chunk" 4096)
  else if name = "stress" then do
    let found ← scanAll stressForms words
    return .stress (numberOr found "threads" 4) (numberOr found "records" 1000)
      (numberOr found "size" 100)
  else if name = "dump" then do
    let found ← scanAll dumpForms words
    return .dump (numberOr found "offset" 0) (numberOr found "len" 512)
  else .error .misuse

/-- Read a command line. -/
def parse (words : List String) : Except NoTask Options := do
  let (found, rest) ← scan deviceForms words []
  let device ← required found "device"
  match rest with
  | [] => .error .misuse
  | name :: own => return { device, settings := readSettings found, task := ← readTask name own }

end Options

end BlockLog
