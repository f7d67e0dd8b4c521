/-
  What is entered in the ledger of a store.

  A file that is backed up joins the files of the ledger: it was a file in a directory, so it
  lies neither above nor below another one of them, and where it lies nothing of the store will
  be written. Marking an entry as restored changes nothing of that.
-/
import SuperForward.Proofs.Backup.Keeping

namespace SuperForward.Backup

open SuperForward.Files (Path Disk Action Location Entry FileSystem Change)
open SuperForward.Json (Value)
open SuperForward.Text (Bytes)

namespace Store

variable {s : Store} {d d' : Disk} {id : String} {ids : List String} {kept : List Kept} {k : Kept}

/-! ## One entry more -/

/-- A file joins the files of a ledger. -/
structure Joins (s : Store) (d : Disk) (ids : List String) (kept : List Kept) (k : Kept) :
    Prop where
  new : ∀ k' ∈ kept, k'.record.id ≠ k.record.id
  apart : s.Apart d ids k
  stored : s.Stored d k
  writable : Writable d k.source
  same : ∀ k' ∈ kept, k.source.parts = s.copyPlace d k'.record.id k'.copy → k.bytes = k'.bytes
  notCopied : ∀ k' ∈ kept, k'.source.parts ≠ s.copyPlace d k.record.id k.copy
  notAbove : ∀ k' ∈ kept, k.source.parts <+: k'.source.parts → k.source.parts = k'.source.parts
  notBelow : ∀ k' ∈ kept, k'.source.parts <+: k.source.parts → k'.source.parts = k.source.parts

theorem Safe.append (h : s.Safe d ids kept) (hk : s.Joins d ids kept k) :
    s.Safe d ids (kept ++ [k]) where
  current := h.current
  placed := h.placed
  manifest := h.manifest
  draft := h.draft
  unused := h.unused
  consistent := {
    nodup := by
      rw [List.map_append, List.map_singleton]
      refine List.nodup_append.2 ⟨h.consistent.nodup, by simp, ?_⟩
      intro id hid id' hid'
      obtain ⟨k', hk', rfl⟩ := List.mem_map.1 hid
      rw [List.mem_singleton.1 hid']
      exact hk.new k' hk'
    apart := fun k' hk' => by
      rcases List.mem_append.1 hk' with hk' | hk'
      · exact h.consistent.apart k' hk'
      · rw [List.mem_singleton.1 hk']
        exact hk.apart
    -- two entries are both old, one of them is the new one, or both are
    same := fun k₁ hk₁ k₂ hk₂ heq => by
      rcases List.mem_append.1 hk₁ with hk₁ | hk₁ <;> rcases List.mem_append.1 hk₂ with hk₂ | hk₂
      · exact h.consistent.same k₁ hk₁ k₂ hk₂ heq
      · rw [List.mem_singleton.1 hk₂] at heq
        exact absurd heq (hk.notCopied k₁ hk₁)
      · rw [List.mem_singleton.1 hk₁] at heq ⊢
        exact hk.same k₂ hk₂ heq
      · rw [List.mem_singleton.1 hk₁, List.mem_singleton.1 hk₂]
    level := fun k₁ hk₁ k₂ hk₂ hbelow => by
      rcases List.mem_append.1 hk₁ with hk₁ | hk₁ <;> rcases List.mem_append.1 hk₂ with hk₂ | hk₂
      · exact h.consistent.level k₁ hk₁ k₂ hk₂ hbelow
      · rw [List.mem_singleton.1 hk₂] at hbelow ⊢
        exact hk.notBelow k₁ hk₁ hbelow
      · rw [List.mem_singleton.1 hk₁] at hbelow ⊢
        exact hk.notAbove k₂ hk₂ hbelow
      · rw [List.mem_singleton.1 hk₁, List.mem_singleton.1 hk₂] }
  stored k' hk' := by
    rcases List.mem_append.1 hk' with hk' | hk'
    · exact h.stored k' hk'
    · rw [List.mem_singleton.1 hk']
      exact hk.stored
  writable k' hk' := by
    rcases List.mem_append.1 hk' with hk' | hk'
    · exact h.writable k' hk'
    · rw [List.mem_singleton.1 hk']
      exact hk.writable

section Backups

variable {path : Path} {reason : String} {removed : List Value} {stamp : Stamp} {bytes : Bytes}

/-- What is entered in the ledger for a backup. -/
def entryOf (s : Store) (d : Disk) (path : Path) (reason : String) (removed : List Value)
    (stamp : Stamp) (bytes : Bytes) : Kept :=
  ⟨s.recordOf d path reason removed stamp bytes, bytes⟩

theorem source_entryOf (hpath : path.Proper) (hcurrent : d.current.Proper) :
    (s.entryOf d path reason removed stamp bytes).source = path.resolve d.current :=
  Path.ofText_toString (hpath.resolve hcurrent)

theorem proper_copyPath (hdirectory : s.directory.Proper) :
    (s.copyPath id path).Proper :=
  (hdirectory.join (Path.proper_ofText _)).join (Path.proper_ofText _)

theorem copy_entryOf (hdirectory : s.directory.Proper) :
    (s.entryOf d path reason removed stamp bytes).copy = s.copyPath stamp.id path :=
  Path.ofText_toString (proper_copyPath hdirectory)

theorem copyPlace_entryOf (hdirectory : s.directory.Proper) (hname : Path.IsName path.name) :
    s.copyPlace d' stamp.id (s.entryOf d path reason removed stamp bytes).copy
      = s.copyPlace d' stamp.id path := by
  rw [copyPlace, copy_entryOf hdirectory, copyPath, Path.name_join_ofText hname]
  rfl

theorem stored_entryOf (hdirectory : s.directory.Proper) (hname : Path.IsName path.name)
    (hcurrent : d'.current = d.current)
    (hlocated : d'.locate (s.copyPath stamp.id path) = .ok (s.copyPlace d stamp.id path))
    (hentry : d'.files.entry? (s.copyPlace d stamp.id path) = some (.file bytes)) :
    s.Stored d' (s.entryOf d path reason removed stamp bytes) where
  isName := by
    rw [copy_entryOf hdirectory, copyPath, Path.name_join_ofText hname]
    exact hname
  path := by
    show s.copyPath stamp.id _ = _
    rw [copy_entryOf hdirectory, copyPath, copyPath, Path.name_join_ofText hname]
  located := by
    show d'.locate _ = .ok (s.copyPlace d' stamp.id _)
    rw [copyPlace_entryOf hdirectory hname, copyPlace_of_current hcurrent, copy_entryOf hdirectory,
      hlocated]
  entry := by
    show d'.files.entry? (s.copyPlace d' stamp.id _) = _
    rw [copyPlace_entryOf hdirectory hname, copyPlace_of_current hcurrent, hentry]
    rfl

/-- The file of a backup that succeeded joins the others. -/
theorem Safe.joins (h : s.Safe d ids kept) (hpath : path.Proper)
    (hremoved : ∀ v ∈ removed, v.Formed) (hid : Stamp.IsId stamp.id) (hnew : stamp.id ∉ ids)
    (hother : d.locate path ≠ .ok (s.manifestPlace d)) (hread : d.read path = .ok bytes)
    (honly : s.OnlyBelow stamp.id d d')
    (hstored : s.Stored d' (s.entryOf d path reason removed stamp bytes)) :
    s.Joins d' (stamp.id :: ids) kept (s.entryOf d path reason removed stamp bytes) := by
  obtain ⟨q, hlocate, hfile⟩ := Disk.read_eq_ok_iff.1 hread
  have hsource := @source_entryOf s d path reason removed stamp bytes hpath h.current
  have hq : q = (s.entryOf d path reason removed stamp bytes).source.parts := by
    rw [hsource, Disk.eq_of_locate hlocate]
  have habove := Disk.directoriesAbove_of_locate hlocate
  -- nothing lies in a directory for an id that is not used, and here a file was read
  have hunused : ∀ id, Stamp.IsId id → id ∉ ids → ¬ s.copiesPlace d id <+: q :=
    fun id hid hnew hbegin => by
      rw [h.unused id hid hnew q hbegin] at hfile
      cases hfile
  have hcurrent := honly.continues.current
  have hsame := honly.elsewhere q (hunused _ hid hnew)
  rw [hq] at hlocate hfile habove hunused hsame
  exact {
    new := fun k' hk' heq => by
      have hid : k'.record.id = stamp.id := heq
      exact hnew (hid ▸ (h.consistent.apart k' hk').used)
    apart := {
      isId := hid
      used := List.mem_cons_self ..
      formed := hremoved
      manifest := by
        rw [manifestPlace_of_current hcurrent]
        intro heq
        exact hother (heq ▸ hlocate)
      draft := by
        rw [draftPlace_of_current hcurrent]
        intro hbegin
        by_cases heq : s.draftPlace d = (s.entryOf d path reason removed stamp bytes).source.parts
        · rw [← heq, h.draft] at hfile
          cases hfile
        · have hdir := habove _ hbegin heq
          rw [h.draft] at hdir
          cases hdir
      unused := fun id' hid' hnew' => by
        rw [List.mem_cons, not_or] at hnew'
        rw [copiesPlace_of_current hcurrent]
        exact hunused id' hid' hnew'.2
      own := by
        rw [copiesPlace_of_current hcurrent]
        exact hunused _ hid hnew }
    stored := hstored
    writable := {
      settled := by
        rw [hsource]
        exact .of_reachable (Disk.reachable_resolve hlocate)
      notDirectory := by
        rw [hsame, hfile]
        simp
      noFileAbove := fun q hbegin hne bytes' hfile' => by
        rw [honly.continues.keeps q (habove q hbegin hne)] at hfile'
        cases hfile' }
    same := fun k' hk' heq => by
      rw [copyPlace_of_current hcurrent] at heq
      rw [heq, (h.stored k' hk').entry] at hfile
      cases hfile
      rfl
    -- the copy is in a directory that was unused, where no earlier source can lie
    notCopied := fun k' hk' heq => by
      rw [copyPlace_of_current hcurrent] at heq
      exact (h.consistent.apart k' hk').unused _ hid hnew
        (heq ▸ copiesPlace_isPrefix_copyPlace)
    notAbove := fun k' hk' hbegin => by_contra fun hne =>
      (h.writable k' hk').noFileAbove _ hbegin hne bytes hfile
    notBelow := fun k' hk' hbegin => by_contra fun hne =>
      (h.writable k' hk').notDirectory (habove _ hbegin hne) }

end Backups

/-! ## Marked entries -/

theorem markedFor_cases (id : String) (k : Kept) :
    k.markedFor id = k ∨ k.markedFor id = k.marked := by
  unfold Kept.markedFor
  split
  · exact .inr rfl
  · exact .inl rfl

@[simp] theorem source_markedFor (id : String) (k : Kept) : (k.markedFor id).source = k.source := by
  rcases markedFor_cases id k with h | h <;> rw [h]
  rfl

@[simp] theorem copy_markedFor (id : String) (k : Kept) : (k.markedFor id).copy = k.copy := by
  rcases markedFor_cases id k with h | h <;> rw [h]
  rfl

@[simp] theorem bytes_markedFor (id : String) (k : Kept) : (k.markedFor id).bytes = k.bytes := by
  rcases markedFor_cases id k with h | h <;> rw [h]
  rfl

@[simp] theorem id_markedFor (id : String) (k : Kept) :
    (k.markedFor id).record.id = k.record.id := by
  rcases markedFor_cases id k with h | h <;> rw [h]
  rfl

theorem formed_markedFor (id : String) {k : Kept} (h : k.record.Formed) :
    (k.markedFor id).record.Formed := by
  rcases markedFor_cases id k with h' | h' <;> rw [h'] <;> exact h

theorem Safe.marked (h : s.Safe d ids kept) (id : String) :
    s.Safe d ids (kept.map (Kept.markedFor id)) where
  current := h.current
  placed := h.placed
  manifest := h.manifest
  draft := h.draft
  unused := h.unused
  consistent := {
    nodup := by
      rw [List.map_map]
      simpa [Function.comp_def] using h.consistent.nodup
    apart := List.forall_mem_map.2 fun k hk => by
      have hapart := h.consistent.apart k hk
      refine ⟨?_, ?_, formed_markedFor id hapart.formed, ?_, ?_, ?_, ?_⟩
      all_goals simp only [source_markedFor, id_markedFor]
      · exact hapart.isId
      · exact hapart.used
      · exact hapart.manifest
      · exact hapart.draft
      · exact hapart.unused
      · exact hapart.own
    same := List.forall_mem_map.2 fun k hk => List.forall_mem_map.2 fun k' hk' => by
      simpa using h.consistent.same k hk k' hk'
    level := List.forall_mem_map.2 fun k hk => List.forall_mem_map.2 fun k' hk' => by
      simpa using h.consistent.level k hk k' hk' }
  stored := List.forall_mem_map.2 fun k hk => by
    obtain ⟨hname, hpath, hlocated, hentry⟩ := h.stored k hk
    constructor
    all_goals simp only [copy_markedFor, bytes_markedFor, id_markedFor]
    all_goals assumption
  writable := List.forall_mem_map.2 fun k hk => by
    rw [source_markedFor]
    exact h.writable k hk

end Store

end SuperForward.Backup
