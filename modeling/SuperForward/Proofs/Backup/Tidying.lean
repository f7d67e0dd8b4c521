/-
  What stays true of a store whatever is backed up, and whoever deletes its copies.

  A store is tidy if no file is in its directory but its manifest and its copies, if each of them
  has bytes that it had when it was written, and if a file that was backed up from within the
  store is such a file itself. So a restoration can damage the store no more than by bringing
  back an older manifest of it. Each change that a store makes keeps it tidy, and so does the
  deletion of copies by others.
-/
import SuperForward.Proofs.Backup.Opening

namespace SuperForward.Backup

open SuperForward.Files (Path Disk Action Location Entry FileSystem Change)
open SuperForward.Json (Value)
open SuperForward.Text (Bytes)

/-! ## Records and ledgers -/

/-- An entry that may differ only in whether its copy was restored. -/
structure Kept.Like (k k' : Kept) : Prop where
  id : k'.record.id = k.record.id
  sourcePath : k'.record.sourcePath = k.record.sourcePath
  copyPath : k'.record.copyPath = k.record.copyPath
  bytes : k'.bytes = k.bytes

theorem Kept.Like.refl (k : Kept) : k.Like k := ⟨rfl, rfl, rfl, rfl⟩

theorem Kept.like_markedFor (id : String) (k : Kept) : k.Like (k.markedFor id) := by
  rcases Store.markedFor_cases id k with h | h <;> rw [h]
  · exact .refl k
  · exact ⟨rfl, rfl, rfl, rfl⟩

/-- Every entry of the first ledger is one of the second. -/
def Carried (kept kept' : List Kept) : Prop := ∀ k ∈ kept, ∃ k' ∈ kept', k.Like k'

theorem Carried.refl (kept : List Kept) : Carried kept kept := fun k hk => ⟨k, hk, .refl k⟩

theorem carried_append (kept more : List Kept) : Carried kept (kept ++ more) :=
  fun k hk => ⟨k, List.mem_append_left _ hk, .refl k⟩

theorem carried_markedFor (id : String) (kept : List Kept) :
    Carried kept (kept.map (Kept.markedFor id)) :=
  fun k hk => ⟨k.markedFor id, List.mem_map_of_mem hk, k.like_markedFor id⟩

/-- Each record is well-named, and belongs to an entry of the ledger. -/
def Known (kept : List Kept) (rs : List Record) : Prop :=
  ∀ r ∈ rs, r.WellNamed ∧ ∃ k ∈ kept, r.id = k.record.id ∧ r.sourcePath = k.record.sourcePath
    ∧ r.copyPath = k.record.copyPath

namespace Known

variable {kept kept' : List Kept} {rs : List Record}

theorem nil (kept : List Kept) : Known kept [] := fun _ hr => absurd hr List.not_mem_nil

theorem mono (h : Known kept rs) (hkept : Carried kept kept') : Known kept' rs := by
  intro r hr
  obtain ⟨hnamed, k, hk, hid, hsource, hcopy⟩ := h r hr
  obtain ⟨k', hk', hlike⟩ := hkept k hk
  exact ⟨hnamed, k', hk', hid.trans hlike.id.symm, hsource.trans hlike.sourcePath.symm,
    hcopy.trans hlike.copyPath.symm⟩

theorem reread (h : Known kept rs) : Known kept (rs.map Record.reread) :=
  List.forall_mem_map.2 fun r hr => ⟨(h r hr).1.reread, (h r hr).2⟩

theorem markFirst (h : Known kept rs) (id : String) :
    Known kept (Manifest.markFirstRecord id rs) := by
  induction rs with
  | nil => exact h
  | cons r rs ih =>
    have hfirst := h r (List.mem_cons_self ..)
    have hrest : Known kept rs := fun r' hr' => h r' (List.mem_cons_of_mem _ hr')
    rw [Manifest.markFirstRecord]
    split
    · exact List.forall_mem_cons.2 ⟨hfirst, hrest⟩
    · exact List.forall_mem_cons.2 ⟨hfirst, ih hrest⟩

theorem concat {k : Kept} (h : Known kept rs) (hnamed : k.record.WellNamed) :
    Known (kept ++ [k]) (rs ++ [k.record]) :=
  List.forall_mem_append.2 ⟨h.mono (carried_append kept [k]), List.forall_mem_singleton.2
    ⟨hnamed, k, List.mem_append_right _ (List.mem_singleton_self k), rfl, rfl, rfl⟩⟩

end Known

namespace Store

variable {s : Store} {d d' : Disk} {id : String} {ids : List String} {kept kept' : List Kept}
  {k k' : Kept} {q : Location} {bytes : Bytes} {rs : List Record}

/-! ## The files of a store -/

/-- The bytes are those that a file of the store may have at the location: a manifest of records
that are known, or what was backed up with the copy. -/
def Own (s : Store) (d : Disk) (kept : List Kept) (q : Location) (bytes : Bytes) : Prop :=
  (q = s.manifestPlace d
      ∧ ∃ rs, Known kept rs ∧ bytes = Manifest.written (Manifest.ofRecords rs))
    ∨ ∃ k ∈ kept, q = s.copyPlace d k.record.id k.copy ∧ bytes = k.bytes

theorem Own.mono (h : s.Own d kept q bytes) (hcurrent : d'.current = d.current)
    (hkept : Carried kept kept') : s.Own d' kept' q bytes := by
  rcases h with ⟨hq, rs, hknown, hbytes⟩ | ⟨k, hk, hq, hbytes⟩
  · exact .inl ⟨by rw [hq, manifestPlace_of_current hcurrent], rs, hknown.mono hkept, hbytes⟩
  · obtain ⟨k', hk', hlike⟩ := hkept k hk
    refine .inr ⟨k', hk', ?_, hbytes.trans hlike.bytes.symm⟩
    rw [hq, copyPlace_of_current hcurrent, Kept.copy, Kept.copy, hlike.id, hlike.copyPath]

/-- The copy of an entry has a place in the store, and nothing is there but the copy. -/
structure Filed (s : Store) (d : Disk) (ids : List String) (k : Kept) : Prop where
  isId : Stamp.IsId k.record.id
  used : k.record.id ∈ ids
  isName : Path.IsName k.copy.name
  located : d.locate k.copy = .ok (s.copyPlace d k.record.id k.copy)
  notDirectory : d.files.entry? (s.copyPlace d k.record.id k.copy) ≠ some .directory

theorem Filed.mono {ids' : List String} (h : s.Filed d ids k) (hcont : Disk.Continues d d')
    (hids : ∀ id ∈ ids, id ∈ ids')
    (hnot : d'.files.entry? (s.copyPlace d k.record.id k.copy) ≠ some .directory) :
    s.Filed d' ids' k where
  isId := h.isId
  used := hids _ h.used
  isName := h.isName
  located := by
    rw [copyPlace_of_current hcont.current]
    exact Disk.locate_mono hcont h.located
  notDirectory := by
    rw [copyPlace_of_current hcont.current]
    exact hnot

theorem place_isPrefix_copyPlace {path : Path} : s.place d <+: s.copyPlace d id path :=
  (List.prefix_append ..).trans copiesPlace_isPrefix_copyPlace

theorem copyPlace_ne_manifestPlace {path : Path} : s.copyPlace d id path ≠ s.manifestPlace d := by
  simp [copyPlace, copiesPlace, manifestPlace]

theorem copyPlace_ne_draftPlace {path : Path} : s.copyPlace d id path ≠ s.draftPlace d := by
  simp [copyPlace, copiesPlace, draftPlace]

/-- The file of an entry has a path that is settled, and what the store may have there if it was
backed up from within the store. -/
structure Sourced (s : Store) (d : Disk) (kept : List Kept) (k : Kept) : Prop where
  settled : k.source.Settled
  own : s.place d <+: k.source.parts → s.Own d kept k.source.parts k.bytes

theorem Sourced.mono (h : s.Sourced d kept k) (hcurrent : d'.current = d.current)
    (hkept : Carried kept kept') : s.Sourced d' kept' k where
  settled := h.settled
  own hinside := (h.own (place_of_current hcurrent ▸ hinside)).mono hcurrent hkept

/-- Nothing is in the directory of the store but what it has put there: files that are its own,
and no directory but those of copies. Entries with one id have the same bytes. -/
structure Tidy (s : Store) (d : Disk) (ids : List String) (kept : List Kept) : Prop
    extends s.InOrder d ids where
  own : ∀ q bytes, s.place d <+: q → d.files.entry? q = some (.file bytes) → s.Own d kept q bytes
  same : ∀ k ∈ kept, ∀ k' ∈ kept, k.record.id = k'.record.id → k.bytes = k'.bytes
  filed : ∀ k ∈ kept, s.Filed d ids k
  sourced : ∀ k ∈ kept, s.Sourced d kept k

namespace Tidy

/-- The manifest lists records that are known. -/
theorem lists (h : s.Tidy d ids kept) : ∃ rs, s.Lists d rs ∧ Known kept rs := by
  obtain ⟨bytes, hfile⟩ := h.manifest
  rcases h.own _ bytes (List.prefix_append ..) hfile with ⟨-, rs, hknown, rfl⟩ | ⟨k, -, hq, -⟩
  · exact ⟨_, lists_reread_of_entry h.placed (fun r hr => (hknown r hr).1) hfile, hknown.reread⟩
  · exact absurd hq.symm copyPlace_ne_manifestPlace

/-- A copy that is there has the bytes of its entry. -/
theorem bytes_of_copy (h : s.Tidy d ids kept) (hk : k ∈ kept)
    (hfile : d.files.entry? (s.copyPlace d k.record.id k.copy) = some (.file bytes)) :
    bytes = k.bytes := by
  rcases h.own _ bytes place_isPrefix_copyPlace hfile with ⟨hq, -⟩ | ⟨k', hk', hq, rfl⟩
  · exact absurd hq copyPlace_ne_manifestPlace
  · have hbelow : s.copiesPlace d k'.record.id <+: s.copyPlace d k.record.id k.copy :=
      hq ▸ copiesPlace_isPrefix_copyPlace
    exact h.same k' hk' k hk (eq_of_copiesPlace_isPrefix hbelow copiesPlace_isPrefix_copyPlace)

/-- What the store may have at a location lies in directories that are there. -/
theorem directoriesAbove (h : s.Tidy d ids kept) (hown : s.Own d kept q bytes) :
    Disk.DirectoriesAbove d.files q := by
  rcases hown with ⟨rfl, -⟩ | ⟨k, hk, rfl, -⟩
  · exact Disk.directoriesAbove_of_locate h.placed.locate_manifest
  · exact Disk.directoriesAbove_of_locate (h.filed k hk).located

theorem ne_draft_of_own (hown : s.Own d kept q bytes) : q ≠ s.draftPlace d := by
  rcases hown with ⟨rfl, -⟩ | ⟨k, -, rfl, -⟩
  · exact manifestPlace_ne_draftPlace s d
  · exact copyPlace_ne_draftPlace

theorem not_unused_of_own (h : s.Tidy d ids kept) (hown : s.Own d kept q bytes)
    (hid : Stamp.IsId id) (hnew : id ∉ ids) : ¬ s.copiesPlace d id <+: q := by
  rcases hown with ⟨rfl, -⟩ | ⟨k, hk, rfl, -⟩
  · exact not_copiesPlace_isPrefix_manifest hid
  · intro hbelow
    rw [eq_of_copiesPlace_isPrefix hbelow copiesPlace_isPrefix_copyPlace] at hnew
    exact hnew (h.filed k hk).used

end Tidy

/-! ## Changes of others -/

/-- Others did what they liked elsewhere, as long as directories are still directories, and in the
store they deleted copies at most. -/
structure Tolerates (s : Store) (kept : List Kept) (d d' : Disk) : Prop where
  continues : Disk.Continues d d'
  inside : ∀ q, s.place d <+: q → d'.files.entry? q = d.files.entry? q
    ∨ d'.files.entry? q = none ∧ ∃ k ∈ kept, q = s.copyPlace d k.record.id k.copy

/-- Others lock files, or let go of them. -/
theorem tolerates_alike (h : Disk.Alike d d') : s.Tolerates kept d d' :=
  ⟨h.continues, fun q _ => .inl (h.entry q)⟩

theorem Tolerates.alike {d'' : Disk} (h : s.Tolerates kept d d') (h' : Disk.Alike d' d'') :
    s.Tolerates kept d d'' where
  continues := h.continues.trans h'.continues
  inside q hq := by
    rw [h'.entry]
    exact h.inside q hq

/-- Others delete a file that is not in the store, or a copy. -/
theorem tolerates_erase (hfile : d.files.entry? q = some (.file bytes))
    (hwhere : ¬ s.place d <+: q ∨ ∃ k ∈ kept, q = s.copyPlace d k.record.id k.copy) :
    s.Tolerates kept d { d with files := d.files.erase q } where
  continues := Disk.continues_erase hfile
  inside q' hq' := by
    by_cases heq : q' = q
    · rcases hwhere with hout | hcopy
      · exact absurd (heq ▸ hq') hout
      · refine .inr ⟨?_, heq ▸ hcopy⟩
        rw [heq]
        exact FileSystem.entry?_erase_self
          (FileSystem.ne_nil_of_not_directory (by rw [hfile]; simp))
    · exact .inl (FileSystem.entry?_erase_of_ne heq)

/-- The manifest is not among what others delete. -/
theorem Tolerates.manifest (ht : s.Tolerates kept d d') :
    d'.files.entry? (s.manifestPlace d) = d.files.entry? (s.manifestPlace d) := by
  rcases ht.inside (s.manifestPlace d) (List.prefix_append ..) with hsame | ⟨-, k, -, hq⟩
  · exact hsame
  · exact absurd hq.symm copyPlace_ne_manifestPlace

theorem Tolerates.lists (ht : s.Tolerates kept d d') (hp : s.Placed d) (h : s.Lists d rs) :
    s.Lists d' rs := (manifestOf_congr hp ht.continues ht.manifest).trans h

namespace Tidy

theorem tolerates (h : s.Tidy d ids kept) (ht : s.Tolerates kept d d') : s.Tidy d' ids kept := by
  have hcurrent := ht.continues.current
  have hgone : ∀ q, s.place d <+: q → d.files.entry? q = none → d'.files.entry? q = none :=
    fun q hq hnone => (ht.inside q hq).elim (·.trans hnone) (·.1)
  have hfree : ∀ q, s.place d <+: q → d.files.entry? q ≠ some .directory →
      d'.files.entry? q ≠ some .directory := fun q hq hnot => by
    rcases ht.inside q hq with hsame | ⟨hnone, -⟩
    · rwa [hsame]
    · rw [hnone]
      simp
  have horder : s.InOrder d' ids := by
    refine h.mono ht.continues ?_ (hgone _ (List.prefix_append ..) h.draft)
      fun id hid hnew q hq => hgone q ((List.prefix_append ..).trans hq) (h.unused id hid hnew q hq)
    rw [ht.manifest]
    exact h.manifest
  exact { horder with
    own := fun q bytes hq hfile => by
      rw [place_of_current hcurrent] at hq
      rcases ht.inside q hq with hsame | ⟨hnone, -⟩
      · exact (h.own q bytes hq (hsame ▸ hfile)).mono hcurrent (.refl kept)
      · rw [hnone] at hfile
        cases hfile
    same := h.same
    filed := fun k hk => (h.filed k hk).mono ht.continues (fun _ hmem => hmem)
      (hfree _ place_isPrefix_copyPlace (h.filed k hk).notDirectory)
    sourced := fun k hk => (h.sourced k hk).mono hcurrent (.refl kept) }

/-- The directories above a file that was backed up are made. None of them is in the store: what
was backed up from within the store has directories there already. -/
theorem tolerates_made {r : Except Files.Error Unit} (h : s.Tidy d ids kept) (hk : k ∈ kept)
    (hmade : (Action.ensureDirectories k.source.parent).outcome d = (r, d')) :
    s.Tolerates kept d d' where
  continues := (Action.widened_ensureDirectories hmade).1.continues
  inside q hq := by
    refine .inl (by_contra fun hne => ?_)
    have hsourced := h.sourced k hk
    have habove : q <+: k.source.parent.parts :=
      Action.isPrefix_of_ensureDirectories hsourced.settled.parent hmade hne
    have hbelow : q <+: k.source.parts := habove.trans (List.dropLast_prefix _)
    have hdir : d.files.entry? q = some .directory := by
      by_cases hnil : q = []
      · rw [hnil, FileSystem.entry?_nil]
      refine h.directoriesAbove (hsourced.own (hq.trans hbelow)) q hbelow ?_
      rintro rfl
      have hlength := habove.length_le
      have hpos := List.length_pos_iff.2 hnil
      rw [Path.parent, List.length_dropLast] at hlength
      omega
    exact hne (by rw [hdir, (Action.widened_ensureDirectories hmade).1.continues.keeps q hdir])

/-! ## Changes of the store -/

/-- A file is written that is one of the store's own, or lies elsewhere. -/
theorem written (h : s.Tidy d ids kept) (hfree : d.files.entry? q ≠ some .directory)
    (hown : s.place d <+: q → s.Own d kept q bytes) :
    s.Tidy (d.after [.writeFile q bytes]) ids kept := by
  have hcont : Disk.Continues d (d.after [.writeFile q bytes]) := Disk.continues_writeFile hfree
  have hentry : ∀ q', (d.after [.writeFile q bytes]).files.entry? q'
      = if q' = q then some (.file bytes) else d.files.entry? q' := Disk.entry?_writeFile hfree
  have hother : ∀ q', q' ≠ q →
      (d.after [.writeFile q bytes]).files.entry? q' = d.files.entry? q' :=
    fun q' hne => by rw [hentry, if_neg hne]
  -- none of the store's own files is the draft or lies in an unused directory
  have horder : s.InOrder (d.after [.writeFile q bytes]) ids := by
    refine h.mono hcont ?_ ?_ fun id hid hnew q' hq' => ?_
    · rw [hentry]
      split
      · exact ⟨bytes, rfl⟩
      · exact h.manifest
    · rw [hother, h.draft]
      rintro rfl
      exact ne_draft_of_own (hown (List.prefix_append ..)) rfl
    · rw [hother, h.unused id hid hnew q' hq']
      rintro rfl
      exact h.not_unused_of_own (hown ((List.prefix_append ..).trans hq')) hid hnew hq'
  exact { horder with
    own := fun q' bytes' hq' hfile => by
      rw [place_of_current hcont.current] at hq'
      refine Own.mono ?_ hcont.current (.refl kept)
      rw [hentry] at hfile
      split at hfile
      · next heq =>
        cases hfile
        exact heq ▸ hown (heq ▸ hq')
      · exact h.own q' bytes' hq' hfile
    same := h.same
    filed := fun k hk => (h.filed k hk).mono hcont (fun _ hmem => hmem) (by
      rw [hentry]
      split
      · simp
      · exact (h.filed k hk).notDirectory)
    sourced := fun k hk => (h.sourced k hk).mono hcont.current (.refl kept) }

/-- A manifest of known records is written. -/
theorem listed (h : s.Tidy d ids kept) (hknown : Known kept rs) :
    s.Tidy (d.after (s.writing d (Manifest.ofRecords rs))) ids kept := by
  have hcont := @continues_writing s d (Manifest.ofRecords rs) h.manifest_ne_directory
    h.draft_ne_directory
  exact { h.writing (Manifest.ofRecords rs) with
    own := fun q bytes hq hfile => by
      rw [place_of_current hcont.current] at hq
      refine Own.mono ?_ hcont.current (.refl kept)
      rw [entry?_writing] at hfile
      split at hfile
      · next heq =>
        cases hfile
        exact .inl ⟨heq, rs, hknown, rfl⟩
      split at hfile
      · cases hfile
      · exact h.own q bytes hq hfile
    same := h.same
    filed := fun k hk => (h.filed k hk).mono hcont (fun _ hmem => hmem) (by
      rw [entry?_writing, if_neg copyPlace_ne_manifestPlace, if_neg copyPlace_ne_draftPlace]
      exact (h.filed k hk).notDirectory)
    sourced := fun k hk => (h.sourced k hk).mono hcont.current (.refl kept) }

/-- Something is done below the directory for the copies with a new id. The entries with that id,
if there are any, are those of the copies that were made. -/
theorem entered {more : List Kept} (h : s.Tidy d ids kept) (hid : Stamp.IsId id)
    (hnew : id ∉ ids) (honly : s.OnlyBelow id d d')
    (hmore : ∀ k ∈ more, k.record.id = id)
    (hsame : ∀ k ∈ more, ∀ k' ∈ more, k.bytes = k'.bytes)
    (hfiled : ∀ k ∈ more, s.Filed d' (id :: ids) k)
    (hsourced : ∀ k ∈ more, s.Sourced d kept k)
    (hown : ∀ q bytes, s.copiesPlace d id <+: q → d'.files.entry? q = some (.file bytes) →
      s.Own d more q bytes) : s.Tidy d' (id :: ids) (kept ++ more) := by
  have hcurrent := honly.continues.current
  -- no entry so far has the new id, so nothing of theirs is below its directory
  have hbefore : ∀ k ∈ kept, k.record.id ≠ id := fun k hk heq =>
    hnew (heq ▸ (h.filed k hk).used)
  have hkept := carried_append kept more
  have hadded : Carried more (kept ++ more) :=
    fun k hk => ⟨k, List.mem_append_right _ hk, .refl k⟩
  exact { h.onlyBelow hid honly with
    own := fun q bytes hq hfile => by
      rw [place_of_current hcurrent] at hq
      by_cases hbelow : s.copiesPlace d id <+: q
      · exact (hown q bytes hbelow hfile).mono hcurrent hadded
      · rw [honly.elsewhere q hbelow] at hfile
        exact (h.own q bytes hq hfile).mono hcurrent hkept
    same := fun k hk k' hk' heq => by
      rcases List.mem_append.1 hk with hk | hk <;> rcases List.mem_append.1 hk' with hk' | hk'
      · exact h.same k hk k' hk' heq
      · exact absurd (heq.trans (hmore k' hk')) (hbefore k hk)
      · exact absurd (heq.symm.trans (hmore k hk)) (hbefore k' hk')
      · exact hsame k hk k' hk'
    filed := List.forall_mem_append.2 ⟨fun k hk => (h.filed k hk).mono honly.continues
      (fun _ hmem => List.mem_cons_of_mem _ hmem) (by
        rw [honly.elsewhere _ fun hq => hbefore k hk
          (eq_of_copiesPlace_isPrefix copiesPlace_isPrefix_copyPlace hq)]
        exact (h.filed k hk).notDirectory), hfiled⟩
    sourced := List.forall_mem_append.2 ⟨fun k hk => (h.sourced k hk).mono hcurrent hkept,
      fun k hk => (hsourced k hk).mono hcurrent hkept⟩ }

theorem marked (h : s.Tidy d ids kept) (id : String) :
    s.Tidy d ids (kept.map (Kept.markedFor id)) where
  toInOrder := h.toInOrder
  own q bytes hq hfile := (h.own q bytes hq hfile).mono rfl (carried_markedFor id kept)
  same := List.forall_mem_map.2 fun k hk => List.forall_mem_map.2 fun k' hk' => by
    simpa using h.same k hk k' hk'
  filed := List.forall_mem_map.2 fun k hk => by
    obtain ⟨hid, hused, hname, hlocated, hnot⟩ := h.filed k hk
    constructor
    all_goals simp only [copy_markedFor, id_markedFor]
    all_goals assumption
  sourced := List.forall_mem_map.2 fun k hk => by
    obtain ⟨hsettled, hown⟩ := (h.sourced k hk).mono rfl (carried_markedFor id kept)
    constructor
    all_goals simp only [source_markedFor, bytes_markedFor]
    all_goals assumption

end Tidy

end Store

end SuperForward.Backup
