/-
  The manifest of a backup store: the list of its records.

  A manifest is an object whose member `backups` lists the records; it may hold more, which is
  kept. It may have been written by others, so nothing is taken for granted.
-/
import SuperForward.Json.Access

namespace SuperForward.Backup

open SuperForward.Json (Value Misfit)

/-- What is known of a copy in the store. -/
structure Record where
  id : String
  sourcePath : String
  copyPath : String
  createdAt : String
  reason : String
  digest : String
  removed : List Value
  restored : Bool
  deriving Repr, Inhabited

namespace Record

/-- A record as a value. -/
def toValue (r : Record) : Value := .object [
  ("id", .string r.id), ("original_path", .string r.sourcePath),
  ("backup_path", .string r.copyPath), ("created_at", .string r.createdAt),
  ("reason", .string r.reason), ("file_hash", .string r.digest),
  ("removed_methods", .array r.removed), ("restored", .bool r.restored)]

end Record

namespace Manifest

/-- The member that lists the records. -/
def recordsName : String := "backups"

/-- The member that says whether a copy was restored. -/
def restoredName : String := "restored"

/-- The manifest without records. -/
def empty : Value := .object [("version", .string "1.0"), (recordsName, .array [])]

/-- The records of a manifest, whatever stands in their place. -/
def records (manifest : Value) : Except Misfit Value := do
  let members ← manifest.members "get"
  return (OrderedMap.lookup recordsName members).getD (.array [])

/-- The manifest with one more record at the end. -/
def append (manifest : Value) (record : Value) : Except Misfit Value := do
  let members ← manifest.members "setdefault"
  let listed ← ((OrderedMap.lookup recordsName members).getD (.array [])).itemsFor "append"
  return .object (OrderedMap.put recordsName (.array (listed ++ [record])) members)

/-- The first of some records with an id. -/
def firstWithId (id : String) : List Value → Except Misfit (Option Value)
  | [] => .ok none
  | record :: rest => do
    if (← record.member "id").isText id then return some record else firstWithId id rest

/-- The first record with an id. -/
def find (manifest : Value) (id : String) : Except Misfit (Option Value) := do
  firstWithId id (← (← records manifest).items)

/-- A record that says it was restored. -/
def restoredRecord : Value → Value
  | .object members => .object (OrderedMap.put restoredName (.bool true) members)
  | v => v

/-- Some records, where the first with an id says it was restored. -/
def markFirst (id : String) : List Value → Except Misfit (List Value)
  | [] => .ok []
  | record :: rest => do
    if (← record.member "id").isText id then return restoredRecord record :: rest
    else return record :: (← markFirst id rest)

/-- The manifest, where the first record with an id says it was restored. -/
def markRestored (manifest : Value) (id : String) : Except Misfit Value := do
  let listed ← records manifest
  let marked ← markFirst id (← listed.items)
  match listed, manifest with
  | .array _, .object members =>
    if (OrderedMap.lookup recordsName members).isSome then
      return .object (OrderedMap.put recordsName (.array marked) members)
    else return manifest
  | _, _ => return manifest

/-- The record says that its copy was restored. -/
def isRestored (record : Value) : Bool := (record.member? restoredName).any Value.isTrue

end Manifest

end SuperForward.Backup
