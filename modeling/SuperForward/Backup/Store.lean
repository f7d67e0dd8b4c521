/-
  The backup store: a directory with copies of files and a manifest that says what they are
  copies of.

  A file is copied before the record of the copy is written, and a file is restored before the
  record says so. The manifest is written to a file beside it, which then takes its place.
-/
import SuperForward.Backup.Fault
import SuperForward.Backup.Manifest
import SuperForward.Backup.Stamp
import SuperForward.Digest.Sha256
import SuperForward.Files.Disk
import SuperForward.Json.Printer
import SuperForward.Json.Reader

namespace SuperForward.Backup

open SuperForward.Files (Path Disk Action)
open SuperForward.Json (Value Misfit)
open SuperForward.Text (Utf8.decode Utf8.encode)

/-- A store is known by its directory. -/
structure Store where
  directory : Path
  deriving DecidableEq, Repr, Inhabited

namespace Store

/-- Does something to files. -/
def onFiles {α : Type} (a : Action Files.Error α) : Action Fault α := a.mapError .files

/-- Takes over what was found in a manifest. -/
def found {α : Type} (e : Except Misfit α) : Action Fault α := .ofExcept (e.mapError .misfit)

/-- A path below the directory. -/
def below (s : Store) (name : String) : Path := s.directory.join (.ofText name)

/-! ## The manifest -/

/-- The path of the manifest. -/
def manifestPath (s : Store) : Path := s.below "manifest.json"

/-- The path to which a new manifest is written first. -/
def draftPath (s : Store) : Path := s.below "manifest.tmp"

/-- The manifest as it is kept. A file that cannot be read, or whose text is no value, counts
as a manifest without records. -/
def manifestOf (s : Store) (d : Disk) : Except Fault Value :=
  match d.read s.manifestPath with
  | .error _ => .ok Manifest.empty
  | .ok bytes =>
    match Utf8.decode bytes with
    | .error error => .error (.notText error)
    | .ok text => .ok ((Value.ofText? text).getD Manifest.empty)

/-- Reads the manifest. -/
def readManifest (s : Store) : Action Fault Value := do .ofExcept (s.manifestOf (← get))

/-- Writes the manifest. -/
def writeManifest (s : Store) (manifest : Value) : Action Fault Unit := do
  onFiles (.write s.draftPath (Utf8.encode (manifest.write (.lines 2))))
  onFiles (.move s.draftPath s.manifestPath)

/-- Opens a store: makes its directory and its manifest, unless they are there. -/
def «open» (s : Store) : Action Fault Unit := do
  onFiles (.ensureDirectories s.directory)
  if !(← onFiles (.askFor (·.isThere s.manifestPath))) then s.writeManifest Manifest.empty

/-! ## Records -/

/-- Adds a record. -/
def addRecord (s : Store) (record : Record) : Action Fault Unit := do
  let manifest ← s.readManifest
  s.writeManifest (← found (Manifest.append manifest record.toValue))

/-- The record with an id. -/
def record? (s : Store) (id : String) : Action Fault (Option Value) := do
  found (Manifest.find (← s.readManifest) id)

/-- All records. -/
def records (s : Store) : Action Fault Value := do found (Manifest.records (← s.readManifest))

/-- Notes in its record that a copy was restored. -/
def markRestored (s : Store) (id : String) : Action Fault Unit := do
  let manifest ← s.readManifest
  s.writeManifest (← found (Manifest.markRestored manifest id))

/-! ## Copies -/

/-- The digest of a file. -/
def digest (path : Path) : Action Fault String := do
  return Digest.sha256 (← onFiles (.read path))

/-- Copies a file into the store and records the copy. -/
def backup (s : Store) (path : Path) (reason : String) (removed : List Value) (stamp : Stamp) :
    Action Fault Unit := do
  if !(← onFiles (.askFor (·.isThere path))) then throw (.noSource (toString path))
  let directory := s.below stamp.id
  onFiles (.ensureDirectories directory)
  let copyPath := directory.join (.ofText path.name)
  onFiles (.copy path copyPath)
  let sourcePath ← onFiles (.askFor (·.resolve path))
  s.addRecord ⟨stamp.id, toString sourcePath, toString copyPath, stamp.time, reason,
    ← digest copyPath, removed, false⟩

/-- Copies a copy back over the file that it was made of; one that was restored before stays
where it is. -/
def restore (s : Store) (id : String) : Action Fault Unit := do
  let some record ← s.record? id | throw (.unknownId id)
  unless Manifest.isRestored record do
    let copyPath := Path.ofText (← found (do (← record.member "backup_path").pathText))
    let sourcePath := Path.ofText (← found (do (← record.member "original_path").pathText))
    if !(← onFiles (.askFor (·.isThere copyPath))) then throw (.noCopy (toString copyPath))
    onFiles (.ensureDirectories sourcePath.parent)
    onFiles (.copy copyPath sourcePath)
    s.markRestored id

end Store

end SuperForward.Backup
