/-
  File systems as values, and changes to them.

  A file system says for each location whether a file or a directory is there, and which of the
  files are locked against writing; a location is the list of names that leads to it from the
  top. A change is one step in which something is made, written or moved, or in which a lock
  changes; the changes made so far, in order, are the journal of a run.
-/
import SuperForward.Data.OrderedMap
import SuperForward.Files.Path
import SuperForward.Text.Utf8

namespace SuperForward.Files

open SuperForward.Text (Bytes)

/-- The names that lead from the top to a file or a directory. -/
abbrev Location := List String

/-- What is at a location. -/
inductive Entry where
  | file (bytes : Bytes)
  | directory
  deriving DecidableEq, Repr, Inhabited

/-- Why a file cannot be written. -/
inductive Lock where
  /-- It may only be read. -/
  | readOnly
  /-- Another program uses it, which lets go of it when that many writes more were refused. -/
  | inUse (more : Nat)
  deriving DecidableEq, Repr, Inhabited

/-- What is left of a lock after a write was refused. -/
def Lock.afterRefusal : Lock → Option Lock
  | .readOnly => some .readOnly
  | .inUse 0 => none
  | .inUse (more + 1) => some (.inUse more)

/-- Files and directories by location, and the locks of files. The top is always a directory. -/
structure FileSystem where
  entries : OrderedMap Location Entry
  locks : OrderedMap Location Lock
  deriving Repr, Inhabited

namespace FileSystem

/-- The file system with nothing below the top. -/
def empty : FileSystem := ⟨.empty, .empty⟩

/-- What is at a location. -/
def entry? (fs : FileSystem) (place : Location) : Option Entry :=
  if place = [] then some .directory else fs.entries.get? place

/-- The lock of a location. -/
def lock? (fs : FileSystem) (place : Location) : Option Lock := fs.locks.get? place

/-- Locks a location, or takes its lock away. -/
def setLock (fs : FileSystem) (place : Location) (lock : Option Lock) : FileSystem :=
  { fs with locks := match lock with
    | some lock => fs.locks.insert place lock
    | none => fs.locks.erase place }

/-- Puts a file or a directory at a location, where it is not locked. -/
def put (fs : FileSystem) (place : Location) (entry : Entry) : FileSystem :=
  { fs with entries := fs.entries.insert place entry }.setLock place none

/-- Takes away what is at a location, with its lock. -/
def erase (fs : FileSystem) (place : Location) : FileSystem :=
  { fs with entries := fs.entries.erase place }.setLock place none

/-- The location is a directory. -/
def isDirectory (fs : FileSystem) (place : Location) : Bool := fs.entry? place == some .directory

/-- The bytes of a file. -/
def bytesAt? (fs : FileSystem) (place : Location) : Option Bytes :=
  match fs.entry? place with
  | some (.file bytes) => some bytes
  | _ => none

/-- A file is at the location, and it is locked. -/
def isLocked (fs : FileSystem) (place : Location) : Bool :=
  (fs.bytesAt? place).isSome && (fs.lock? place).isSome

/-- A file is at the location that may only be read. -/
def isReadOnly (fs : FileSystem) (place : Location) : Bool :=
  (fs.bytesAt? place).isSome && fs.lock? place == some .readOnly

/-- The names in a directory. -/
def namesIn (fs : FileSystem) (directory : Location) : List String :=
  fs.entries.keys.filterMap fun place =>
    if place != [] && place.dropLast == directory then place.getLast? else none

/-! ## Making file systems -/

/-- Makes a directory and those above it, where nothing is there yet. -/
def withDirectory (fs : FileSystem) (place : Location) : FileSystem :=
  (List.range place.length).foldl (fun fs depth =>
    let above := place.take (depth + 1)
    if (fs.entry? above).isNone then fs.put above .directory else fs) fs

/-- Writes a file, and makes the directories above it. -/
def withFile (fs : FileSystem) (place : Location) (bytes : Bytes) : FileSystem :=
  (fs.withDirectory place.dropLast).put place (.file bytes)

/-- Takes away a location with all that is below it. -/
def without (fs : FileSystem) (place : Location) : FileSystem :=
  ⟨⟨fs.entries.entries.filter fun e => !place.isPrefixOf e.1⟩,
    ⟨fs.locks.entries.filter fun e => !place.isPrefixOf e.1⟩⟩

end FileSystem

/-! ## Changes -/

/-- One step in which a file system changes. -/
inductive Change where
  | makeDirectory (place : Location)
  | writeFile (place : Location) (bytes : Bytes)
  | rename (source target : Location)
  /-- A file becomes one that may only be read. -/
  | protect (place : Location)
  /-- A write to a locked file is refused. -/
  | refuse (place : Location)
  deriving DecidableEq, Repr

namespace Change

/-- The file system after a change. -/
def apply (fs : FileSystem) : Change → FileSystem
  | .makeDirectory place => fs.put place .directory
  | .writeFile place bytes => fs.put place (.file bytes)
  | .rename source target =>
    match fs.entry? source with
    | some entry => ((fs.erase source).put target entry).setLock target (fs.lock? source)
    | none => fs
  | .protect place => fs.setLock place (some .readOnly)
  | .refuse place => fs.setLock place ((fs.lock? place).bind Lock.afterRefusal)

/-- The file system after several changes. -/
def applyAll (fs : FileSystem) (changes : List Change) : FileSystem := changes.foldl apply fs

theorem applyAll_append (fs : FileSystem) (xs ys : List Change) :
    applyAll fs (xs ++ ys) = applyAll (applyAll fs xs) ys := List.foldl_append

end Change

end SuperForward.Files
