/-
  Manifests as lists of records.

  A manifest that lists records is read as it was written, and what is done with it is done
  with the list: one more record comes last, a record is found by its id, and the first record
  with an id is marked as restored.
-/
import SuperForward.Backup.Store
import SuperForward.Proofs.Json.RoundTrip
import SuperForward.Proofs.Text.Utf8

namespace SuperForward.Backup

open SuperForward.Json (Value Misfit)
open SuperForward.Text (Utf8.decode Utf8.encode Bytes)

namespace Record

/-- What is kept of a record is formed as values are. -/
def Formed (r : Record) : Prop := ∀ v ∈ r.removed, v.Formed

/-- The record, once its copy was restored. -/
def marked (r : Record) : Record := { r with restored := true }

/-- No object in what is kept of a record has two members of one name. -/
def WellNamed (r : Record) : Prop := ∀ v ∈ r.removed, v.WellNamed

/-- What is read for a record. -/
def reread (r : Record) : Record := { r with removed := r.removed.map Value.reread }

theorem Formed.wellNamed {r : Record} (h : r.Formed) : r.WellNamed := fun v hv => (h v hv).wellNamed

theorem Formed.reread {r : Record} (h : r.Formed) : r.reread = r := by
  rw [Record.reread, List.map_congr_left fun v hv => (h v hv).reread, List.map_id']

theorem WellNamed.reread {r : Record} (h : r.WellNamed) : r.reread.WellNamed :=
  List.forall_mem_map.2 fun v hv => (h v hv).reread

theorem wellNamed_toValue {r : Record} (h : r.WellNamed) : r.toValue.WellNamed := by
  have hremoved : Value.WellNamedItems r.removed := Value.wellNamedItems_iff.2 h
  have hnames : ["id", "original_path", "backup_path", "created_at", "reason", "file_hash",
      "removed_methods", "restored"].Nodup := by decide
  refine ⟨hnames, ?_⟩
  simp [Value.WellNamedMembers, Value.WellNamed, hremoved]

theorem reread_toValue (r : Record) : r.toValue.reread = r.reread.toValue := by
  simp [toValue, reread, Value.reread, Value.rereadMembers, Value.rereadItems_eq_map]

theorem member_id (r : Record) : r.toValue.member "id" = .ok (.string r.id) := rfl

theorem member_copyPath (r : Record) : r.toValue.member "backup_path" = .ok (.string r.copyPath) :=
  rfl

theorem member_sourcePath (r : Record) :
    r.toValue.member "original_path" = .ok (.string r.sourcePath) := rfl

theorem isRestored_toValue (r : Record) : Manifest.isRestored r.toValue = r.restored := by
  obtain ⟨id, source, copy, time, reason, digest, removed, restored⟩ := r
  rfl

theorem restoredRecord_toValue (r : Record) :
    Manifest.restoredRecord r.toValue = r.marked.toValue := rfl

end Record

namespace Manifest

/-- The manifest that lists some records. -/
def ofRecords (rs : List Record) : Value :=
  .object [("version", .string "1.0"), (recordsName, .array (rs.map Record.toValue))]

theorem empty_eq : empty = ofRecords [] := rfl

/-- The bytes as which a manifest is written. -/
def written (manifest : Value) : Bytes := Utf8.encode (manifest.write (.lines 2))

theorem wellNamed_ofRecords {rs : List Record} (h : ∀ r ∈ rs, r.WellNamed) :
    (ofRecords rs).WellNamed := by
  have hitems : Value.WellNamedItems (rs.map Record.toValue) :=
    Value.wellNamedItems_iff.2 (List.forall_mem_map.2 fun r hr => Record.wellNamed_toValue (h r hr))
  have hnames : ["version", recordsName].Nodup := by decide
  refine ⟨hnames, ?_⟩
  simp [Value.WellNamedMembers, Value.WellNamed, hitems]

theorem reread_ofRecords (rs : List Record) :
    (ofRecords rs).reread = ofRecords (rs.map Record.reread) := by
  simp [ofRecords, Value.reread, Value.rereadMembers, Value.rereadItems_eq_map,
    Record.reread_toValue, Function.comp_def]

/-- A manifest is read from its bytes. -/
theorem read_written {rs : List Record} (h : ∀ r ∈ rs, r.WellNamed) :
    Utf8.decode (written (ofRecords rs)) = .ok ((ofRecords rs).write (.lines 2))
      ∧ Value.ofText? ((ofRecords rs).write (.lines 2)) = some (ofRecords (rs.map Record.reread)) :=
  ⟨Text.Utf8.decode_encode _, by
    rw [Value.ofText?_write_reread _ (wellNamed_ofRecords h), reread_ofRecords]⟩

theorem records_ofRecords (rs : List Record) :
    records (ofRecords rs) = .ok (.array (rs.map Record.toValue)) := rfl

theorem append_ofRecords (rs : List Record) (r : Record) :
    append (ofRecords rs) r.toValue = .ok (ofRecords (rs ++ [r])) := by
  show Except.ok (Value.object [_, (recordsName, .array (rs.map Record.toValue ++ [r.toValue]))]) = _
  rw [ofRecords, List.map_append]
  rfl

/-- The records, where the first with an id is marked. -/
def markFirstRecord (id : String) : List Record → List Record
  | [] => []
  | r :: rs => if r.id = id then r.marked :: rs else r :: markFirstRecord id rs

theorem firstWithId_map (id : String) (rs : List Record) :
    firstWithId id (rs.map Record.toValue) = .ok ((rs.find? (·.id = id)).map Record.toValue) := by
  induction rs with
  | nil => rfl
  | cons r rs ih =>
    rw [List.map_cons, firstWithId, Record.member_id]
    by_cases h : r.id = id
    · simp [bind, Except.bind, Value.isText, h, pure, Except.pure]
    · simp [bind, Except.bind, Value.isText, h, Ne.symm h, ih]

theorem find_ofRecords (id : String) (rs : List Record) :
    find (ofRecords rs) id = .ok ((rs.find? (·.id = id)).map Record.toValue) := by
  unfold find
  rw [records_ofRecords]
  exact firstWithId_map id rs

theorem markFirst_map (id : String) (rs : List Record) :
    markFirst id (rs.map Record.toValue) = .ok ((markFirstRecord id rs).map Record.toValue) := by
  induction rs with
  | nil => rfl
  | cons r rs ih =>
    rw [List.map_cons, markFirst, Record.member_id, markFirstRecord]
    by_cases h : r.id = id
    · simp [bind, Except.bind, Value.isText, h, pure, Except.pure, Record.restoredRecord_toValue]
    · simp [bind, Except.bind, Value.isText, h, Ne.symm h, ih, pure, Except.pure]

theorem markRestored_ofRecords (id : String) (rs : List Record) :
    markRestored (ofRecords rs) id = .ok (ofRecords (markFirstRecord id rs)) := by
  unfold markRestored
  rw [records_ofRecords]
  simp only [bind, Except.bind, Value.items, markFirst_map]
  rfl

end Manifest

end SuperForward.Backup
