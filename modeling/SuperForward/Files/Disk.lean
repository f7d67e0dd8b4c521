/-
  Operations on files: what they need, what they change, and how they fail.

  A disk is a file system with a current directory and the journal of the changes made. An
  operation that fails keeps the changes made before.
-/
import SuperForward.Files.Error
import SuperForward.Files.FileSystem

namespace SuperForward.Files

open SuperForward.Text (Bytes)

/-- A file system in use. -/
structure Disk where
  files : FileSystem
  current : Path
  journal : List Change
  deriving Inhabited

/-- A computation that uses a disk and may fail. -/
abbrev Action (ε : Type) := ExceptT ε (StateM Disk)

namespace Disk

/-- A disk on which nothing has been changed yet. -/
def start (files : FileSystem) (current : Path) : Disk := ⟨files, current, []⟩

/-! ## Where a path leads -/

/-- The greatest number of bytes in a name. -/
def nameLimit : Nat := 255

/-- The greatest number of bytes in a path, as it is written. -/
def pathLimit : Nat := 4095

/-- Follows names from a location. Every name has to be looked up in a directory that is
there; the last one may lead to a place where nothing is yet. -/
def follow (fs : FileSystem) (place : Location) : List String → Except Cause Location
  | [] => .ok place
  | name :: rest =>
    match fs.entry? place with
    | none => .error .missing
    | some (.file _) => .error .notDirectory
    | some .directory =>
      if name.utf8ByteSize > nameLimit then .error .nameTooLong
      else follow fs (if name == ".." then place.dropLast else place ++ [name]) rest

/-- The location that a path leads to. -/
def locate (d : Disk) (p : Path) : Except Error Location :=
  let text := toString p
  if text.toList.contains '\x00' then .error .nullCharacter
  else if text.utf8ByteSize > pathLimit then .error (.refused .nameTooLong text)
  else (follow d.files [] (d.current.join p).parts).mapError (.refused · text)

/-- What a path leads to. -/
def lookUp (d : Disk) (p : Path) : Except Error Entry := do
  match d.files.entry? (← d.locate p) with
  | some entry => return entry
  | none => throw (.refused .missing (toString p))

/-- What a path leads to, if it leads to anything. Of a path that is too long this cannot be
said. -/
def find (d : Disk) (p : Path) : Except Error (Option Entry) :=
  match d.lookUp p with
  | .ok entry => .ok (some entry)
  | .error (.refused .nameTooLong text) => .error (.refused .nameTooLong text)
  | .error _ => .ok none

/-- The path leads to something. -/
def isThere (d : Disk) (p : Path) : Except Error Bool := do return (← d.find p).isSome

/-- The path leads to a directory. -/
def isDirectory (d : Disk) (p : Path) : Bool :=
  match d.lookUp p with
  | .ok .directory => true
  | _ => false

/-- The bytes that reading a path gives. -/
def read (d : Disk) (p : Path) : Except Error Bytes := do
  match ← d.lookUp p with
  | .file bytes => return bytes
  | .directory => throw (.refused .isDirectory (toString p))

/-- The path leads to a file that may only be read. -/
def isReadOnly (d : Disk) (p : Path) : Bool :=
  match d.locate p with
  | .ok place => d.files.isReadOnly place
  | .error _ => false

/-- Both paths lead to the same thing. -/
def isSame (d : Disk) (p q : Path) : Except Error Bool :=
  match d.lookUp p, d.lookUp q with
  | .error .nullCharacter, _ => .error .nullCharacter
  | .ok _, .error .nullCharacter => .error .nullCharacter
  | .ok _, .ok _ => do return decide ((← d.locate p) = (← d.locate q))
  | _, _ => .ok false

/-- The absolute path without double dots, as seen from the current directory. -/
def resolve (d : Disk) (p : Path) : Except Error Path :=
  if (toString p).toList.contains '\x00' then .error .nullCharacter
  else .ok (p.resolve d.current)

end Disk

namespace Action

variable {ε α : Type}

/-- Runs an action, with the disk it leaves. -/
def outcome (a : Action ε α) (d : Disk) : Except ε α × Disk := (ExceptT.run a).run d

/-- Asks the disk. -/
def ask (question : Disk → α) : Action ε α := do return question (← get)

/-- Takes over a result. -/
def ofExcept (e : Except ε α) : Action ε α := ExceptT.mk (pure e)

/-- Asks the disk something that it may not be able to answer. -/
def askFor (question : Disk → Except ε α) : Action ε α := do ofExcept (question (← get))

/-- Renames the failures of an action. -/
def mapError {δ : Type} (f : δ → ε) (a : Action δ α) : Action ε α :=
  ExceptT.mk do return (← ExceptT.run a).mapError f

/-- Makes a change. -/
def perform (change : Change) : Action ε Unit :=
  modify fun d => { d with files := change.apply d.files, journal := d.journal ++ [change] }

/-! ## Operations -/

/-- The bytes of a file. -/
def read (p : Path) : Action Error Bytes := askFor (·.read p)

/-- Writes a file; one that is there is replaced, unless it is locked. -/
def write (p : Path) (bytes : Bytes) : Action Error Unit := do
  let place ← askFor (·.locate p)
  if ← ask (·.files.isDirectory place) then throw (.refused .isDirectory (toString p))
  if ← ask (·.files.isLocked place) then
    perform (.refuse place)
    throw (.refused .denied (toString p))
  perform (.writeFile place bytes)

/-- Makes a directory in one that is there. -/
def makeDirectory (p : Path) : Action Error Unit := do
  let place ← askFor (·.locate p)
  if ← ask fun d => (d.files.entry? place).isSome then throw (.refused .exists (toString p))
  perform (.makeDirectory place)

/-- Makes a directory, unless it is there. -/
def ensureDirectory (p : Path) : Action Error Unit := do
  if !(← ask (·.isDirectory p)) then makeDirectory p

/-- Makes a directory and those above it, at most `levels` of them, unless they are there. -/
def ensureDirectoriesWithin : (levels : Nat) → Path → Action Error Unit
  | 0, p => ensureDirectory p
  | levels + 1, p => do
    match (← get).locate p with
    | .error (.refused .missing _) =>
      ensureDirectoriesWithin levels p.parent
      ensureDirectory p
    | _ => ensureDirectory p

/-- Makes a directory and those above it, unless they are there. -/
def ensureDirectories (p : Path) : Action Error Unit := ensureDirectoriesWithin p.parts.length p

/-- Moves a file to another path; a file that is there is replaced. -/
def move (source target : Path) : Action Error Unit :=
  mapError (Error.ofMove (toString source) (toString target)) do
    let a ← askFor (·.locate source)
    let b ← askFor (·.locate target)
    if ← ask fun d => (d.files.entry? a).isNone then throw (.refused .missing (toString source))
    if ← ask (·.files.isDirectory b) then throw (.refused .isDirectory (toString target))
    perform (.rename a b)

/-- Makes a file one that may only be read, if another one is. -/
def copyMode (source target : Path) : Action Error Unit := do
  if ← ask (·.isReadOnly source) then perform (.protect (← askFor (·.locate target)))

/-- Copies a file to a path; to a directory means into it, under the same name. The copy of a
file that may only be read may only be read. -/
def copy (source target : Path) : Action Error Unit := do
  let (target, text) ← ask fun d =>
    if d.isDirectory target then
      let name := source.lastWord
      (target.join (.ofText name), target.entryText name)
    else (target, toString target)
  if ← askFor (·.isSame source target) then throw (.sameFile (toString source) text)
  let bytes ← read source
  mapError (Error.about text) do
    write target bytes
    copyMode source target

end Action

end SuperForward.Files
