/-
  What one call of a backup store does.

  A backup makes a directory, a copy in it, and a manifest with one record more; where it fails,
  nothing outside of that directory is different. A restoration writes the file and then the
  manifest, or it leaves the disk as it is.
-/
import SuperForward.Proofs.Backup.Placed
import SuperForward.Proofs.Backup.Stamping
import SuperForward.Proofs.Files.Actions

namespace SuperForward.Backup

open SuperForward.Files (Path Disk Action Location Entry FileSystem Change)
open SuperForward.Json (Value)
open SuperForward.Text (Bytes)

namespace Store

variable {s : Store} {d d' : Disk} {id : String} {rs : List Record}

/-! ## The directory of the copies -/

/-- The location of the directory for the copies with an id. -/
def copiesPlace (s : Store) (d : Disk) (id : String) : Location := s.place d ++ [id]

theorem copiesPlace_of_current (h : d'.current = d.current) :
    s.copiesPlace d' id = s.copiesPlace d id := by
  rw [copiesPlace, copiesPlace, place_of_current h]

theorem not_copiesPlace_isPrefix {name : String} (h : id ≠ name) :
    ¬ s.copiesPlace d id <+: s.place d ++ [name] := by
  intro hbegin
  obtain ⟨-, hsame⟩ := List.append_inj' (hbegin.eq_of_length (by simp [copiesPlace])) rfl
  exact h (List.cons.inj hsame).1

theorem not_copiesPlace_isPrefix_manifest (hid : Stamp.IsId id) :
    ¬ s.copiesPlace d id <+: s.manifestPlace d :=
  not_copiesPlace_isPrefix (hid.ne (by decide))

theorem not_copiesPlace_isPrefix_draft (hid : Stamp.IsId id) :
    ¬ s.copiesPlace d id <+: s.draftPlace d :=
  not_copiesPlace_isPrefix (hid.ne (by decide))

/-- The directory above is there, so at most its path is refused. -/
theorem Placed.locate_below_cases (hp : s.Placed d) (hid : Stamp.IsId id) :
    d.locate (s.below id) = .ok (s.copiesPlace d id)
      ∨ ∃ e, d.locate (s.below id) = .error e ∧ ∀ text, e ≠ .refused .missing text := by
  have hfollow := (Disk.locate_eq_ok_iff.1 hp.located).2
  have hup : id ≠ ".." := hid.ne (by decide)
  unfold Disk.locate
  dsimp only
  split
  · exact .inr ⟨_, rfl, by simp⟩
  split
  · exact .inr ⟨_, rfl, by simp⟩
  rw [below, Path.parts_join_join_ofText _ _ hid.isName, Disk.follow_append hfollow]
  by_cases hsize : id.utf8ByteSize ≤ Disk.nameLimit
  · rw [Disk.follow_cons_of_directory hp.directory hsize, if_neg hup]
    exact .inl rfl
  · have hlong : Disk.follow d.files (s.place d) [id] = .error .nameTooLong := by
      simp [Disk.follow, hp.directory, Nat.lt_of_not_le hsize]
    rw [hlong]
    exact .inr ⟨_, rfl, by simp⟩

/-- What is done for the directory of the copies with an id. -/
def preparing (s : Store) (d : Disk) (id : String) : List Change :=
  if d.files.isDirectory (s.copiesPlace d id) then [] else [.makeDirectory (s.copiesPlace d id)]

/-- Nothing is made for the copies but their directory. -/
theorem cases_ensureCopies {r : Except Fault Unit} (hp : s.Placed d) (hid : Stamp.IsId id)
    (h : (onFiles (.ensureDirectories (s.below id))).outcome d = (r, d')) :
    (∃ e, r = .error e ∧ d' = d)
      ∨ (r = .ok () ∧ d.locate (s.below id) = .ok (s.copiesPlace d id)
        ∧ (∀ bytes, d.files.entry? (s.copiesPlace d id) ≠ some (.file bytes))
        ∧ d' = d.after (s.preparing d id)) := by
  -- the store is there, so making the directory never comes to make those above it
  have hmake : (Action.ensureDirectories (s.below id)).outcome d
      = (Action.ensureDirectory (s.below id)).outcome d := by
    refine Action.outcome_ensureDirectories fun text heq => ?_
    rcases hp.locate_below_cases hid with hok | ⟨e, herror, hne⟩
    · rw [hok] at heq
      cases heq
    · rw [herror] at heq
      cases heq
      exact hne text rfl
  rcases cases_onFiles h with ⟨e, hdone, rfl⟩ | ⟨x, hdone, rfl⟩
  · rw [hmake] at hdone
    rcases Action.cases_ensureDirectory hdone with ⟨-, -, rfl⟩ | ⟨_, _, hno, _⟩
    · exact .inl ⟨_, rfl, rfl⟩
    · cases hno
  · rw [hmake] at hdone
    rcases Action.cases_ensureDirectory hdone with ⟨_, hno, _⟩ | ⟨place, hlocate, -, hentry⟩
    · cases hno
    rcases hp.locate_below_cases hid with hok | ⟨e, herror, -⟩
    · rw [hok] at hlocate
      cases hlocate
      refine .inr ⟨rfl, hok, ?_⟩
      rcases hentry with ⟨hdir, rfl⟩ | ⟨hnone, rfl⟩
      · rw [preparing, if_pos (FileSystem.isDirectory_iff.2 hdir), Disk.after_nil, hdir]
        exact ⟨by simp, rfl⟩
      · rw [preparing, if_neg (by rw [FileSystem.isDirectory_iff, hnone]; simp), hnone]
        exact ⟨by simp, rfl⟩
    · rw [herror] at hlocate
      cases hlocate

theorem entry?_preparing (q : Location) : (d.after (s.preparing d id)).files.entry? q
      = if q = s.copiesPlace d id then some .directory else d.files.entry? q := by
  unfold preparing
  split
  · next hdir =>
    rw [Disk.after_nil]
    split
    · next heq => rw [heq, FileSystem.isDirectory_iff.1 hdir]
    · rfl
  · rw [Disk.files_after, Change.applyAll_cons, Change.applyAll_nil]
    exact FileSystem.entry?_put (by simp [copiesPlace])

theorem continues_preparing : Disk.Continues d (d.after (s.preparing d id)) where
  current := rfl
  keeps q hq := by
    rw [entry?_preparing]
    split
    · rfl
    · exact hq

/-! ## Reading and changing the list of records -/

theorem outcome_readManifest (h : s.Lists d rs) :
    s.readManifest.outcome d = (.ok (Manifest.ofRecords rs), d) :=
  (Action.outcome_get_bind _).trans (by rw [Action.outcome_ofExcept, h])

theorem outcome_addRecord (h : s.Lists d rs) (r : Record) :
    (s.addRecord r).outcome d
      = (s.writeManifest (Manifest.ofRecords (rs ++ [r]))).outcome d := by
  rw [addRecord, Action.outcome_bind_ok (outcome_readManifest h),
    Action.outcome_bind_ok (outcome_found_ok (Manifest.append_ofRecords rs r))]

theorem outcome_markRestored (h : s.Lists d rs) (id : String) :
    (s.markRestored id).outcome d
      = (s.writeManifest (Manifest.ofRecords (Manifest.markFirstRecord id rs))).outcome d := by
  rw [markRestored, Action.outcome_bind_ok (outcome_readManifest h),
    Action.outcome_bind_ok (outcome_found_ok (Manifest.markRestored_ofRecords id rs))]

theorem outcome_record? (h : s.Lists d rs) (id : String) :
    (s.record? id).outcome d = (.ok ((rs.find? (·.id = id)).map Record.toValue), d) := by
  rw [record?, Action.outcome_bind_ok (outcome_readManifest h)]
  exact outcome_found_ok (Manifest.find_ofRecords id rs)

/-! ## Backups -/

/-- The path to the copy of a file. -/
def copyPath (s : Store) (id : String) (path : Path) : Path :=
  (s.below id).join (.ofText path.name)

/-- The record of a copy. -/
def recordOf (s : Store) (d : Disk) (path : Path) (reason : String) (removed : List Value)
    (stamp : Stamp) (bytes : Bytes) : Record :=
  ⟨stamp.id, toString (path.resolve d.current), toString (s.copyPath stamp.id path), stamp.time,
    reason, Digest.sha256 bytes, removed, false⟩

/-- The location of the copy of a file. -/
def copyPlace (s : Store) (d : Disk) (id : String) (path : Path) : Location :=
  s.copiesPlace d id ++ [path.name]

theorem copyPlace_of_current {path : Path} (h : d'.current = d.current) :
    s.copyPlace d' id path = s.copyPlace d id path := by
  rw [copyPlace, copyPlace, copiesPlace_of_current h]

/-- What a backup does before it adds the record. -/
def copying (s : Store) (d : Disk) (id : String) (path : Path) (bytes : Bytes) : List Change :=
  s.preparing d id ++ Action.copied (d.after (s.preparing d id)) path (s.copyPlace d id path) bytes

variable {path : Path} {bytes : Bytes}

/-- Where nothing was, there is the copy and its directory. -/
theorem entry?_copying (h : d.files.entry? (s.copyPlace d id path) = none) (q : Location) :
    (d.after (s.copying d id path bytes)).files.entry? q
      = if q = s.copyPlace d id path then some (.file bytes)
        else if q = s.copiesPlace d id then some .directory else d.files.entry? q := by
  rw [copying, ← Disk.after_after, Action.entry?_copied, entry?_preparing]
  rw [entry?_preparing, if_neg (by simp [copyPlace]), h]
  simp

theorem of_locate_copyPath {place : Location}
    (hlocate : d.locate (s.below id) = .ok (s.copiesPlace d id)) (hname : Path.IsName path.name) (hup : path.name ≠ "..")
    (h : d.locate (s.copyPath id path) = .ok place) : place = s.copyPlace d id path := by
  obtain ⟨between, hfollow, -, -, rfl⟩ := Disk.of_locate_join h hname hup
  rw [(Disk.locate_eq_ok_iff.1 hlocate).2] at hfollow
  cases hfollow
  rfl

/-- A file that is copied into the store goes below the directory for its copies; unless something
is there already, it goes to the place of the copy. -/
theorem cases_copyTarget {place : Location} (hpath : path.Proper)
    (hlocate : d.locate (s.below id) = .ok (s.copiesPlace d id))
    (hdir : d.files.entry? (s.copiesPlace d id) = some .directory) (hread : d.read path = .ok bytes)
    (hplace : d.locate (Action.copyTarget d path (s.copyPath id path)) = .ok place)
    (hfree : d.files.entry? place ≠ some .directory) :
    s.copiesPlace d id <+: place
      ∧ (d.isDirectory (s.copyPath id path) = true
          ∧ d.files.entry? (s.copyPlace d id path) = some .directory
        ∨ d.locate (s.copyPath id path) = .ok place
          ∧ place = s.copyPlace d id path ∧ Path.IsName path.name) := by
  obtain ⟨q, hq, hfile⟩ := Disk.read_eq_ok_iff.1 hread
  rw [Action.copyTarget] at hplace
  by_cases hparts : path.parts = []
  · -- a path without a name is copied to the directory, which cannot be written
    have hname : path.name = "" := by rw [Path.name, hparts]; rfl
    have hempty : ∀ p : Path, p.join (.ofText "") = p := fun p => by
      rw [Path.join, if_neg (by decide)]
      exact congrArg (Files.Path.mk p.anchor) (List.append_nil _)
    have hdot : ∀ p : Path, p.join (.ofText ".") = p := fun p => by
      rw [Path.join, if_neg (by decide)]
      exact congrArg (Files.Path.mk p.anchor) (List.append_nil _)
    have hcopyPath : s.copyPath id path = s.below id := by rw [copyPath, hname, hempty]
    have hlast : (s.below id).join (.ofText path.lastWord) = s.below id := by
      rw [Path.lastWord, hparts]
      show (s.below id).join (.ofText (if path.isAbsolute then "" else ".")) = _
      split
      · exact hempty _
      · exact hdot _
    rw [hcopyPath, if_pos (Disk.isDirectory_iff.2 ⟨_, hlocate, hdir⟩), hlast, hlocate] at hplace
    cases hplace
    exact absurd hdir hfree
  · have hname := hpath.isName_name hparts
    have hup := Disk.name_ne_up_of_locate hq (by rw [hfile]; simp) hparts
    split at hplace
    · next hinner =>
      -- the copy goes into a directory of that name
      obtain ⟨inner, hinnerPlace, hinnerDir⟩ := Disk.isDirectory_iff.1 hinner
      have hinnerCopy := of_locate_copyPath hlocate hname hup hinnerPlace
      rw [Path.lastWord_eq_name hparts] at hplace
      obtain ⟨between, hfollow, -, -, rfl⟩ := Disk.of_locate_join hplace hname hup
      rw [(Disk.locate_eq_ok_iff.1 hinnerPlace).2] at hfollow
      cases hfollow
      refine ⟨?_, .inl ⟨hinner, hinnerCopy ▸ hinnerDir⟩⟩
      rw [hinnerCopy]
      exact (List.prefix_append _ _).trans (List.prefix_append _ _)
    · have hcopy := of_locate_copyPath hlocate hname hup hplace
      exact ⟨hcopy ▸ List.prefix_append _ _, .inr ⟨hplace, hcopy, hname⟩⟩

/-- A file that is copied into the store is written below the directory for its copies, or it is
refused there because a file is in its place. -/
theorem cases_copyIn {r : Except Fault Unit} (hpath : path.Proper)
    (hlocate : d.locate (s.below id) = .ok (s.copiesPlace d id))
    (hdir : d.files.entry? (s.copiesPlace d id) = some .directory)
    (h : (onFiles (.copy path (s.copyPath id path))).outcome d = (r, d')) :
    (∃ e, r = .error e ∧ (d' = d ∨ d.files.entry? (s.copyPlace d id path) ≠ none
        ∧ ∃ place, s.copiesPlace d id <+: place ∧ d' = d.after [.refuse place]))
      ∨ ∃ bytes place, r = .ok () ∧ d.read path = .ok bytes
        ∧ s.copiesPlace d id <+: place ∧ d.files.entry? place ≠ some .directory
        ∧ d' = d.after (Action.copied d path place bytes)
        ∧ (d.isDirectory (s.copyPath id path) = true
            ∧ d.files.entry? (s.copyPlace d id path) = some .directory
          ∨ d.locate (s.copyPath id path) = .ok place
            ∧ place = s.copyPlace d id path ∧ Path.IsName path.name) := by
  obtain ⟨r', hdone, hr⟩ : ∃ r', (Action.copy path (s.copyPath id path)).outcome d = (r', d')
      ∧ r = r'.mapError .files := by
    rcases cases_onFiles h with ⟨e, hdone, rfl⟩ | ⟨x, hdone, rfl⟩
    · exact ⟨_, hdone, rfl⟩
    · exact ⟨_, hdone, rfl⟩
  subst hr
  rcases Action.cases_copy hdone with ⟨e, rfl, rfl⟩ | ⟨bytes, place, hread, hplace,
    ⟨hlocked, ⟨e, rfl⟩, rfl⟩ | ⟨hfree, rfl, rfl⟩⟩
  · exact .inl ⟨_, rfl, .inl rfl⟩
  · -- only a file can be locked, so one is in the place of the copy already
    obtain ⟨⟨_, hfile⟩, -⟩ := FileSystem.isLocked_iff.1 hlocked
    obtain ⟨hbelow, hwhere⟩ :=
      cases_copyTarget hpath hlocate hdir hread hplace (by rw [hfile]; simp)
    refine .inl ⟨_, rfl, .inr ⟨fun hnone => ?_, place, hbelow, rfl⟩⟩
    rcases hwhere with ⟨-, hinner⟩ | ⟨-, rfl, -⟩
    · rw [hnone] at hinner
      cases hinner
    · rw [hnone] at hfile
      cases hfile
  · obtain ⟨hbelow, hwhere⟩ :=
      cases_copyTarget hpath hlocate hdir hread hplace hfree.notDirectory
    exact .inr ⟨bytes, place, rfl, hread, hbelow, hfree.notDirectory, rfl, hwhere⟩

/-- Nothing was changed but below the directory for the copies with an id. -/
structure OnlyBelow (s : Store) (id : String) (d d' : Disk) : Prop where
  continues : Disk.Continues d d'
  elsewhere : ∀ q, ¬ s.copiesPlace d id <+: q → d'.files.entry? q = d.files.entry? q
  locks : ∀ q, ¬ s.copiesPlace d id <+: q → d'.files.lock? q = d.files.lock? q

namespace OnlyBelow

theorem refl : s.OnlyBelow id d d := ⟨.refl d, fun _ _ => rfl, fun _ _ => rfl⟩

theorem trans {between : Disk} (h : s.OnlyBelow id d between) (h' : s.OnlyBelow id between d') :
    s.OnlyBelow id d d' where
  continues := h.continues.trans h'.continues
  elsewhere q hq := by
    rw [h'.elsewhere q (by rwa [copiesPlace_of_current h.continues.current]), h.elsewhere q hq]
  locks q hq := by
    rw [h'.locks q (by rwa [copiesPlace_of_current h.continues.current]), h.locks q hq]

theorem preparing : s.OnlyBelow id d (d.after (s.preparing d id)) where
  continues := continues_preparing
  elsewhere q hq := by
    rw [entry?_preparing, if_neg]
    rintro rfl
    exact hq List.prefix_rfl
  locks q hq := by
    have hne : q ≠ s.copiesPlace d id := by
      rintro rfl
      exact hq List.prefix_rfl
    refine Change.lock?_applyAll ?_
    unfold Store.preparing
    split
    · simp
    · simpa [Change.lockPlaces, Change.places] using hne

/-- A change below the directory leaves the rest as it is. -/
theorem change {c : Change} (hcont : Disk.Continues d (d.after [c]))
    (hplaces : ∀ q ∈ c.places, s.copiesPlace d id <+: q)
    (hlocks : ∀ q ∈ c.lockPlaces, s.copiesPlace d id <+: q) : s.OnlyBelow id d (d.after [c]) where
  continues := hcont
  elsewhere q hq := by
    rw [Disk.files_after, Change.applyAll_cons, Change.applyAll_nil,
      Change.entry?_apply _ fun hmem => hq (hplaces q hmem)]
  locks q hq := Change.lock?_applyAll (List.forall_mem_singleton.2 fun hmem => hq (hlocks q hmem))

theorem writeFile {place : Location} (hplace : s.copiesPlace d id <+: place)
    (hfree : d.files.entry? place ≠ some .directory) :
    s.OnlyBelow id d (d.after [.writeFile place bytes]) :=
  .change (Disk.continues_writeFile hfree) (by simpa [Change.places] using hplace)
    (by simpa [Change.lockPlaces, Change.places] using hplace)

theorem refuse {place : Location} (hplace : s.copiesPlace d id <+: place) :
    s.OnlyBelow id d (d.after [.refuse place]) :=
  .change (Disk.alike_refuse d place).continues (by simp [Change.places])
    (by simpa [Change.lockPlaces] using hplace)

theorem copied {place : Location} (hplace : s.copiesPlace d id <+: place)
    (hfree : d.files.entry? place ≠ some .directory) :
    s.OnlyBelow id d (d.after (Action.copied d path place bytes)) where
  continues := Action.continues_copied hfree
  elsewhere q hq := by
    rw [Action.entry?_copied hfree, if_neg]
    rintro rfl
    exact hq hplace
  locks q hq := Action.lock?_copied (by
    rintro rfl
    exact hq hplace)

theorem lists (h : s.OnlyBelow id d d') (hp : s.Placed d) (hid : Stamp.IsId id)
    (hlists : s.Lists d rs) : s.Lists d' rs := by
  rw [Lists, manifestOf_congr hp h.continues
    (h.elsewhere _ (not_copiesPlace_isPrefix_manifest hid)), hlists]

end OnlyBelow

theorem throughout_preparing :
    Disk.Throughout (s.OnlyBelow id d) d (d.after (s.preparing d id)) := by
  unfold preparing
  split
  · rw [Disk.after_nil]
    exact .refl .refl
  · next hdir =>
    have hmade : s.OnlyBelow id d (d.after (s.preparing d id)) := .preparing
    rw [preparing, if_neg hdir] at hmade
    exact .change .refl hmade

section Backups

variable {reason : String} {removed : List Value} {stamp : Stamp}

/-- What a backup does with a path that leads to something. -/
theorem outcome_backup_of_isThere (h : d.isThere path = .ok true) :
    (s.backup path reason removed stamp).outcome d
      = (onFiles (.ensureDirectories (s.below stamp.id)) >>= fun _ =>
        onFiles (.copy path (s.copyPath stamp.id path)) >>= fun _ =>
        onFiles (.askFor (·.resolve path)) >>= fun sourcePath =>
        digest (s.copyPath stamp.id path) >>= fun hash =>
        s.addRecord ⟨stamp.id, toString sourcePath, toString (s.copyPath stamp.id path),
          stamp.time, reason, hash, removed, false⟩).outcome d := by
  rw [backup, Action.outcome_bind_ok (outcome_isThere h)]
  rfl

/-- A backup of a path that leads to nothing fails at once. -/
theorem outcome_backup_of_not_isThere (h : d.isThere path ≠ .ok true) :
    ∃ e, (s.backup path reason removed stamp).outcome d = (.error e, d) := by
  rcases hthere : d.isThere path with e | - | -
  · exact ⟨_, Action.outcome_bind_error (outcome_isThere_error hthere)⟩
  · rw [backup, Action.outcome_bind_ok (outcome_isThere hthere)]
    exact ⟨_, rfl⟩
  · exact absurd hthere h

theorem outcome_digest (h : d.read path = .ok bytes) :
    (digest path).outcome d = (.ok (Digest.sha256 bytes), d) := by
  rw [digest, Action.outcome_bind_ok (outcome_onFiles_ok (d := d) (by
    rw [Action.outcome_read, h]))]
  rfl

theorem cases_digest {r : Except Fault String} (h : (digest path).outcome d = (r, d')) :
    d' = d ∧ ((∃ e, r = .error e) ∨ ∃ bytes, d.read path = .ok bytes) := by
  rcases hread : d.read path with e | bytes
  · rw [digest, Action.outcome_bind_error (outcome_onFiles_error (d := d) (by
      rw [Action.outcome_read, hread]))] at h
    cases h
    exact ⟨rfl, .inl ⟨_, rfl⟩⟩
  · rw [outcome_digest hread] at h
    cases h
    exact ⟨rfl, .inr ⟨bytes, rfl⟩⟩

/-- A directory has no digest. -/
theorem outcome_digest_of_isDirectory (h : d.isDirectory path = true) :
    ∃ e, (digest path).outcome d = (.error e, d) := by
  rcases hdone : (digest path).outcome d with ⟨e | x, d'⟩
  · obtain ⟨rfl, -⟩ := cases_digest hdone
    exact ⟨e, rfl⟩
  · obtain ⟨-, ⟨_, hno⟩ | ⟨bytes, hread⟩⟩ := cases_digest hdone
    · cases hno
    obtain ⟨q, hq, hdir⟩ := Disk.isDirectory_iff.1 h
    obtain ⟨q', hq', hfile⟩ := Disk.read_eq_ok_iff.1 hread
    rw [hq] at hq'
    cases hq'
    rw [hdir] at hfile
    cases hfile

/-- The path of a file that is located can be resolved. -/
theorem resolve_of_locate {q : Location} (h : d.locate path = .ok q)
    (hcurrent : d'.current = d.current) :
    d'.resolve path = .ok (path.resolve d.current) := by
  rw [Disk.resolve, if_neg, hcurrent]
  exact fun hnull => (Disk.locate_eq_ok_iff.1 h).1.noNull (List.contains_iff_mem.1 hnull)

/-- What is done for a copy that was made: the record is added. -/
theorem outcome_recordCopy (hp : s.Placed d) (hlists : s.Lists d rs)
    (hmanifest : d.files.entry? (s.manifestPlace d) ≠ some .directory)
    (hdraft : d.files.entry? (s.draftPlace d) = none)
    (hresolve : d.resolve path = .ok (path.resolve d.current))
    (hread : d.read (s.copyPath stamp.id path) = .ok bytes) :
    (onFiles (.askFor (·.resolve path)) >>= fun sourcePath =>
        digest (s.copyPath stamp.id path) >>= fun hash =>
        s.addRecord ⟨stamp.id, toString sourcePath, toString (s.copyPath stamp.id path),
          stamp.time, reason, hash, removed, false⟩).outcome d
      = (.ok (), d.after (s.writing d (Manifest.ofRecords
          (rs ++ [s.recordOf d path reason removed stamp bytes])))) := by
  rw [Action.outcome_bind_ok (outcome_onFiles_ok (d := d) (by
      rw [Action.outcome_askFor, hresolve])),
    Action.outcome_bind_ok (outcome_digest hread), outcome_addRecord hlists,
    outcome_writeManifest hp hmanifest (FileSystem.accepts_of_none hdraft)]
  rfl

/-- What is there was the same before a directory was made. -/
theorem read_of_read_preparing {source : Location} (hsource : d.locate path = .ok source)
    (h : (d.after (s.preparing d id)).read path = .ok bytes) : d.read path = .ok bytes := by
  obtain ⟨q, hq, hfile⟩ := Disk.read_eq_ok_iff.1 h
  rw [Disk.locate_mono continues_preparing hsource] at hq
  cases hq
  rw [entry?_preparing] at hfile
  split at hfile
  · cases hfile
  · exact Disk.read_eq_ok_iff.2 ⟨_, hsource, hfile⟩

/-- After a copy was made at its place the record is added, as it would have been before. -/
theorem outcome_recordCopied {cs : List Change} {source : Location} (hp : s.Placed d)
    (hid : Stamp.IsId stamp.id) (hlists : s.Lists d rs)
    (hmanifest : d.files.entry? (s.manifestPlace d) ≠ some .directory)
    (hdraft : d.files.entry? (s.draftPlace d) = none)
    (hsource : d.locate path = .ok source) (honly : s.OnlyBelow stamp.id d (d.after cs))
    (hread : (d.after cs).read (s.copyPath stamp.id path) = .ok bytes) :
    (onFiles (.askFor (·.resolve path)) >>= fun sourcePath =>
        digest (s.copyPath stamp.id path) >>= fun hash =>
        s.addRecord ⟨stamp.id, toString sourcePath, toString (s.copyPath stamp.id path),
          stamp.time, reason, hash, removed, false⟩).outcome (d.after cs)
      = (.ok (), d.after (cs ++ s.writing d (Manifest.ofRecords
          (rs ++ [s.recordOf d path reason removed stamp bytes])))) := by
  have hmanifest' : (d.after cs).files.entry? (s.manifestPlace (d.after cs)) ≠ some .directory := by
    rw [manifestPlace_of_current honly.continues.current,
      honly.elsewhere _ (not_copiesPlace_isPrefix_manifest hid)]
    exact hmanifest
  have hdraft' : (d.after cs).files.entry? (s.draftPlace (d.after cs)) = none := by
    rw [draftPlace_of_current honly.continues.current,
      honly.elsewhere _ (not_copiesPlace_isPrefix_draft hid)]
    exact hdraft
  have hresolve : (d.after cs).resolve path = .ok (path.resolve d.current) :=
    resolve_of_locate hsource rfl
  rw [outcome_recordCopy (hp.mono honly.continues) (honly.lists hp hid hlists) hmanifest' hdraft'
    hresolve hread, Disk.after_after]
  rfl

/-- Once the directory for it was made, a copy fails or is made at its place; where a directory is
there already, the file is copied into that. All of this is below the directory for the copy. -/
theorem cases_copyPrepared {r : Except Fault Unit} (hpath : path.Proper)
    (hlocate : (d.after (s.preparing d id)).locate (s.below id) = .ok (s.copiesPlace d id))
    (h : (onFiles (.copy path (s.copyPath id path))).outcome (d.after (s.preparing d id))
      = (r, d')) :
    Disk.Throughout (s.OnlyBelow id d) d d'
      ∧ ((∃ e, r = .error e ∧ (d.files.entry? (s.copyPlace d id path) = none →
          d' = d.after (s.preparing d id)))
        ∨ r = .ok () ∧ (d'.isDirectory (s.copyPath id path) = true
            ∧ d.files.entry? (s.copyPlace d id path) ≠ none
          ∨ ∃ bytes, (d.after (s.preparing d id)).read path = .ok bytes ∧ Path.IsName path.name
            ∧ d' = d.after (s.copying d id path bytes)
            ∧ d'.locate (s.copyPath id path) = .ok (s.copyPlace d id path)
            ∧ d'.read (s.copyPath id path) = .ok bytes)) := by
  have hprepared : s.OnlyBelow id d (d.after (s.preparing d id)) := .preparing
  have hpreparing : Disk.Throughout (s.OnlyBelow id d) d (d.after (s.preparing d id)) :=
    throughout_preparing
  have hdir : (d.after (s.preparing d id)).files.entry? (s.copiesPlace d id) = some .directory := by
    rw [entry?_preparing, if_pos rfl]
  have hsame : (d.after (s.preparing d id)).files.entry? (s.copyPlace d id path)
      = d.files.entry? (s.copyPlace d id path) := by
    rw [entry?_preparing, if_neg (by simp [copyPlace])]
  -- places depend on the current directory only, which preparing leaves as it is
  have hcopied := cases_copyIn hpath hlocate hdir h
  rw [copiesPlace_of_current (Disk.current_after d _),
    copyPlace_of_current (Disk.current_after d _), hsame] at hcopied
  rcases hcopied with ⟨e, rfl, rfl | ⟨hthere, place, hbelow, rfl⟩⟩
    | ⟨bytes, place, rfl, hread, hbelow, hfree, rfl, hplace⟩
  · exact ⟨hpreparing, .inl ⟨e, rfl, fun _ => rfl⟩⟩
  · have hrefused := hprepared.trans (.refuse hbelow)
    exact ⟨hpreparing.trans (.change hprepared hrefused),
      .inl ⟨e, rfl, fun hnone => absurd hnone hthere⟩⟩
  have hcont : Disk.Continues (d.after (s.preparing d id)) ((d.after (s.preparing d id)).after
      (Action.copied (d.after (s.preparing d id)) path place bytes)) :=
    Action.continues_copied hfree
  refine ⟨hpreparing.trans (Action.throughout_copied hprepared
    (hprepared.trans (.writeFile hbelow hfree)) (hprepared.trans (.copied hbelow hfree))),
    .inr ⟨rfl, ?_⟩⟩
  rcases hplace with ⟨hinner, hentry⟩ | ⟨hcopy, rfl, hname⟩
  · -- no write takes away the directory that the file was copied into
    obtain ⟨inner, hinnerPlace, hinnerDir⟩ := Disk.isDirectory_iff.1 hinner
    refine .inl ⟨Disk.isDirectory_iff.2 ⟨inner, Disk.locate_mono hcont hinnerPlace,
      hcont.keeps _ hinnerDir⟩, ?_⟩
    rw [hentry]
    simp
  · exact .inr ⟨bytes, hread, hname, by rw [copying, Disk.after_after],
      Disk.locate_mono hcont hcopy, Action.read_copied hcopy hfree⟩

/-- A backup fails and has changed nothing but below the directory for its copy, or it makes the
copy and lists one record more. Until the copy is made nothing else is changed at any moment.
Where it fails it has made that directory at most, unless something is in the place of the copy
already. -/
theorem cases_backup {r : Except Fault Unit} (hp : s.Placed d) (hid : Stamp.IsId stamp.id)
    (hpath : path.Proper) (hlists : s.Lists d rs)
    (hmanifest : d.files.entry? (s.manifestPlace d) ≠ some .directory)
    (hdraft : d.files.entry? (s.draftPlace d) = none)
    (h : (s.backup path reason removed stamp).outcome d = (r, d')) :
    (∃ e, r = .error e ∧ Disk.Throughout (s.OnlyBelow stamp.id d) d d'
        ∧ (d.files.entry? (s.copyPlace d stamp.id path) = none →
          d' = d ∨ d' = d.after (s.preparing d stamp.id)))
      ∨ ∃ bytes, r = .ok () ∧ d.read path = .ok bytes ∧ Path.IsName path.name
        ∧ Disk.Throughout (s.OnlyBelow stamp.id d) d (d.after (s.copying d stamp.id path bytes))
        ∧ (d.after (s.copying d stamp.id path bytes)).locate (s.copyPath stamp.id path)
          = .ok (s.copyPlace d stamp.id path)
        ∧ d' = d.after (s.copying d stamp.id path bytes
          ++ s.writing d (Manifest.ofRecords
            (rs ++ [s.recordOf d path reason removed stamp bytes]))) := by
  by_cases hthere : d.isThere path = .ok true
  case neg =>
    obtain ⟨e, herror⟩ := @outcome_backup_of_not_isThere s d path reason removed stamp hthere
    rw [herror] at h
    cases h
    exact .inl ⟨e, rfl, .refl .refl, fun _ => .inl rfl⟩
  rw [outcome_backup_of_isThere hthere] at h
  obtain ⟨entry, hlook⟩ := Disk.lookUp_of_isThere hthere
  obtain ⟨source, hsource, hentry⟩ := Disk.lookUp_eq_ok_iff.1 hlook
  -- the directory
  rcases Action.cases_bind h with ⟨e, hmade, rfl⟩ | ⟨x, made, hmade, h⟩
  · rcases cases_ensureCopies hp hid hmade with ⟨-, -, rfl⟩ | ⟨hno, -⟩
    · exact .inl ⟨e, rfl, .refl .refl, fun _ => .inl rfl⟩
    · cases hno
  rcases cases_ensureCopies hp hid hmade with ⟨_, hno, _⟩ | ⟨-, hlocate, hfile, rfl⟩
  · cases hno
  have hlocate' := Disk.locate_mono (@continues_preparing s d stamp.id) hlocate
  -- the copy
  rcases Action.cases_bind h with ⟨e, hcopied, rfl⟩ | ⟨x, copied, hcopied, h⟩
  · obtain ⟨hmoments, ⟨_, -, hsame⟩ | ⟨hno, -⟩⟩ := cases_copyPrepared hpath hlocate' hcopied
    · exact .inl ⟨e, rfl, hmoments, fun hnone => .inr (hsame hnone)⟩
    · cases hno
  obtain ⟨hmoments, ⟨_, hno, -⟩ | ⟨-, hplace⟩⟩ := cases_copyPrepared hpath hlocate' hcopied
  · cases hno
  rcases hplace with ⟨hdir, hinner⟩ | ⟨bytes, hread, hname, rfl, hcopy, hread'⟩
  · -- where a directory is in the place of the copy, it has no digest
    obtain ⟨e, hdigest⟩ := outcome_digest_of_isDirectory hdir
    have hresolve : copied.resolve path = .ok (path.resolve d.current) :=
      resolve_of_locate hsource hmoments.last.continues.current
    rw [Action.outcome_bind_ok (outcome_onFiles_ok (by rw [Action.outcome_askFor, hresolve])),
      Action.outcome_bind_error hdigest] at h
    cases h
    exact .inl ⟨e, rfl, hmoments, fun hnone => absurd hnone hinner⟩
  · rw [outcome_recordCopied hp hid hlists hmanifest hdraft hsource hmoments.last hread'] at h
    cases h
    exact .inr ⟨bytes, rfl, read_of_read_preparing hsource hread, hname, hmoments, hcopy, rfl⟩

end Backups

end Store

end SuperForward.Backup
