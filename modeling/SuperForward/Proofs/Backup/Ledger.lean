/-
  What a backup store has to keep.

  A ledger is written beside a run of a store: each backup that succeeds enters the record of
  the copy and the bytes that the file had, and each restoration that succeeds marks an entry.
  The store keeps the law if what it lists, holds and gives back is what the ledger says.
-/
import SuperForward.Proofs.Backup.Copying
import SuperForward.Proofs.Files.Directories
import Mathlib.Data.List.Forall2

namespace SuperForward.Backup

open SuperForward.Files (Path Disk Action Location FileSystem)
open SuperForward.Json (Value)
open SuperForward.Text (Bytes)

/-! ## Ledgers -/

/-- A record, and the bytes that its file had when it was backed up. -/
structure Kept where
  record : Record
  bytes : Bytes

namespace Kept

/-- The path of the file. -/
def source (k : Kept) : Path := .ofText k.record.sourcePath

/-- The path of its copy. -/
def copy (k : Kept) : Path := .ofText k.record.copyPath

/-- The entry, once the copy was restored. -/
def marked (k : Kept) : Kept := { k with record := k.record.marked }

@[simp] theorem source_marked (k : Kept) : k.marked.source = k.source := rfl

@[simp] theorem copy_marked (k : Kept) : k.marked.copy = k.copy := rfl

@[simp] theorem bytes_marked (k : Kept) : k.marked.bytes = k.bytes := rfl

@[simp] theorem id_marked (k : Kept) : k.marked.record.id = k.record.id := rfl

/-- The entry, once the copies with an id were restored. -/
def markedFor (id : String) (k : Kept) : Kept := if k.record.id = id then k.marked else k

end Kept

/-! ## Runs -/

/-- What happens to a store. -/
inductive Event where
  | backup (path : Path) (reason : String) (removed : List Value) (stamp : Stamp)
  | restore (id : String)
  /-- Others change files, and leave this disk. -/
  | others (left : Disk)

/-- The disk, the ids that were given so far, and the ledger. -/
structure State where
  disk : Disk
  ids : List String
  kept : List Kept

namespace Store

/-- The store was opened, and nothing has happened since. -/
def start (s : Store) (d : Disk) : State := ⟨(s.open.outcome d).2, [], []⟩

/-- What an event leaves, and what is entered in the ledger. -/
def next (s : Store) (st : State) : Event → State
  | .backup path reason removed stamp =>
    let (result, disk) := (s.backup path reason removed stamp).outcome st.disk
    ⟨disk, stamp.id :: st.ids, match result, st.disk.read path with
      | .ok (), .ok bytes =>
        st.kept ++ [⟨s.recordOf st.disk path reason removed stamp bytes, bytes⟩]
      | _, _ => st.kept⟩
  | .restore id =>
    let (result, disk) := (s.restore id).outcome st.disk
    ⟨disk, st.ids, match result with
      | .ok () => st.kept.map (Kept.markedFor id)
      | .error _ => st.kept⟩
  | .others left => { st with disk := left }

@[simp]
theorem ids_next_backup (s : Store) (st : State) (path : Path) (reason : String)
    (removed : List Value) (stamp : Stamp) :
    (s.next st (.backup path reason removed stamp)).ids = stamp.id :: st.ids := rfl

@[simp]
theorem ids_next_others (s : Store) (st : State) (left : Disk) :
    (s.next st (.others left)).ids = st.ids := rfl

/-- What several events leave. -/
def after (s : Store) (st : State) (events : List Event) : State := events.foldl s.next st

theorem after_append (s : Store) (st : State) (es es' : List Event) :
    s.after st (es ++ es') = s.after (s.after st es) es' := List.foldl_append

/-- Others changed files outside of the store only, and they put no directory in the place of a
file that was backed up, and no file above it. -/
structure Elsewhere (s : Store) (kept : List Kept) (d d' : Disk) : Prop where
  current : d'.current = d.current
  located : d'.locate s.directory = d.locate s.directory
  inside : ∀ q, s.place d <+: q → d'.files.entry? q = d.files.entry? q
  notDirectory : ∀ k ∈ kept, d'.files.entry? k.source.parts ≠ some .directory
  noFileAbove : ∀ k ∈ kept, d'.files.NoFileAbove k.source.parts

/-- The event is one of those for which the store answers. The id of a backup is a new one, and
a backup is not one of the manifest of the store itself. -/
def Allowed (s : Store) (st : State) : Event → Prop
  | .backup path _ removed stamp =>
    path.Proper ∧ (∀ v ∈ removed, v.Formed) ∧ Stamp.IsId stamp.id ∧ stamp.id ∉ st.ids
      ∧ st.disk.locate path ≠ .ok (s.manifestPlace st.disk)
  | .restore _ => True
  | .others left => s.Elsewhere st.kept st.disk left

/-- Each event of a run is one of those for which the store answers. -/
def AllAllowed (s : Store) (st : State) : List Event → Prop
  | [] => True
  | event :: rest => s.Allowed st event ∧ s.AllAllowed (s.next st event) rest

/-- The store can be opened, and then its directory has nothing in it but what opening makes. -/
structure Fresh (s : Store) (d : Disk) : Prop where
  current : d.current.Proper
  directory : s.directory.Proper
  opens : (s.open.outcome d).1 = .ok ()
  empty : ∀ made, (Action.ensureDirectories s.directory).outcome d = (.ok (), made) →
    ∀ q, s.place d <+: q → q ≠ s.place d → made.files.entry? q = none

/-! ## The law -/

/-- What comes of the restoration of a copy that was not restored before: if the path of the file
is not too long, it succeeds unless the file is locked, and then it is refused. When it succeeds
the file has its bytes again and the entry is marked. No other file is different, and if it fails
no file at all. -/
structure Restores (s : Store) (st : State) (k : Kept) (r : Except Fault Unit) (d : Disk) :
    Prop where
  succeeds : k.source.Askable → st.disk.files.isLocked k.source.parts = false → r = .ok ()
  refused : k.source.Askable → st.disk.files.isLocked k.source.parts = true →
    r = .error (.files (.refused .denied (toString k.source)))
  source : r = .ok () → d.read k.source = .ok k.bytes
  records : r = .ok () → s.records.outcome d
    = (.ok (.array (st.kept.map fun k' => (k'.markedFor k.record.id).record.toValue)), d)
  others : ∀ q, (r = .ok () → q ≠ k.source.parts ∧ q ≠ s.manifestPlace st.disk) →
    d.files.bytesAt? q = st.disk.files.bytesAt? q

/-- The store lists the records of the ledger, holds the bytes of every copy, and gives them
back; what was restored before is left alone. -/
structure KeepsLaw (s : Store) (st : State) : Prop where
  records : s.records.outcome st.disk
    = (.ok (.array (st.kept.map fun k => k.record.toValue)), st.disk)
  copies : ∀ k ∈ st.kept, st.disk.read k.copy = .ok k.bytes
  restores : ∀ k ∈ st.kept, k.record.restored = false →
    ∀ r d, (s.restore k.record.id).outcome st.disk = (r, d) → s.Restores st k r d
  restored : ∀ k ∈ st.kept, k.record.restored = true →
    (s.restore k.record.id).outcome st.disk = (.ok (), st.disk)
  unknown : ∀ id, (∀ k ∈ st.kept, k.record.id ≠ id) →
    (s.restore id).outcome st.disk = (.error (.unknownId id), st.disk)

/-- The ledger was carried on while some events happened: entries were added at its end, and an
entry is different only in that its copy was restored, successfully, by one of the events. -/
def CarriedOn (s : Store) (st : State) (events : List Event) : Prop :=
  ∃ now more, (s.after st events).kept = now ++ more ∧ List.Forall₂ (fun k k' => k' = k
    ∨ k.record.restored = false ∧ k' = k.marked ∧ ∃ before rest,
      events = before ++ .restore k.record.id :: rest
        ∧ ((s.restore k.record.id).outcome (s.after st before).disk).1 = .ok ()) st.kept now

end Store

end SuperForward.Backup
