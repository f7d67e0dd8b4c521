/-
  Failing loses nothing.

  A backup or a restoration that fails has made directories at most. This holds of a tidy store,
  and a store stays tidy through all backups and restorations, whether they succeed or not, and
  whatever others do to files elsewhere and to its copies.
-/
import SuperForward.Proofs.Backup.Law
import SuperForward.Proofs.Backup.Tidying

namespace SuperForward.Backup

open SuperForward.Files (Path Disk Action Location Entry FileSystem Change)
open SuperForward.Json (Value)
open SuperForward.Text (Bytes)

namespace Store

variable {s : Store} {d d' : Disk} {id : String} {ids : List String} {kept : List Kept} {k : Kept}
  {q : Location} {bytes : Bytes} {result : Except Fault Unit}

/-! ## Backups -/

section Backups

variable {path : Path} {reason : String} {removed : List Value} {stamp : Stamp}

/-- Where nothing is yet, the directory for the copies is all that is made. -/
theorem widened_preparing (h : d.files.entry? (s.copiesPlace d id) = none) :
    Action.Widened d (d.after (s.preparing d id)) := by
  unfold preparing
  split
  · rw [Disk.after_nil]
    exact .refl
  · exact .make .refl h

/-- The directory for the copies with a new id is made at most. -/
theorem Tidy.prepared (h : s.Tidy d ids kept) (hid : Stamp.IsId id) (hnew : id ∉ ids)
    (hd' : d' = d ∨ d' = d.after (s.preparing d id)) :
    Action.Widened d d' ∧ s.Tidy d' (id :: ids) kept := by
  have hunused := h.unused id hid hnew
  have hwide : Action.Widened d d' := by
    rcases hd' with rfl | rfl
    · exact .refl
    · exact widened_preparing (hunused _ List.prefix_rfl)
  have honly : s.OnlyBelow id d d' := by
    rcases hd' with rfl | rfl
    · exact .refl
    · exact .preparing
  refine ⟨hwide, ?_⟩
  have htidy := @Tidy.entered s d d' id ids kept [] h hid hnew honly (by simp) (by simp) (by simp)
    (by simp) fun q bytes hq hfile => by
      rw [hwide.entry_file, hunused q hq] at hfile
      cases hfile
  rwa [List.append_nil] at htidy

/-- The copy is made, and the entry for it joins the ledger. -/
theorem Tidy.copied (h : s.Tidy d ids kept) (hpath : path.Proper) (hid : Stamp.IsId stamp.id)
    (hnew : stamp.id ∉ ids) (hname : Path.IsName path.name) (hread : d.read path = .ok bytes)
    (honly : s.OnlyBelow stamp.id d (d.after (s.copying d stamp.id path bytes)))
    (hlocated : (d.after (s.copying d stamp.id path bytes)).locate (s.copyPath stamp.id path)
      = .ok (s.copyPlace d stamp.id path)) :
    s.Tidy (d.after (s.copying d stamp.id path bytes)) (stamp.id :: ids)
      (kept ++ [s.entryOf d path reason removed stamp bytes]) := by
  have hunused := h.unused stamp.id hid hnew
  have hentry := @entry?_copying s d stamp.id path bytes (hunused _ copiesPlace_isPrefix_copyPlace)
  have hstored := @stored_entryOf s d _ path reason removed stamp bytes h.placed.proper hname
    (Disk.current_after d _) hlocated (by rw [hentry, if_pos rfl])
  obtain ⟨q, hlocate, hfile⟩ := Disk.read_eq_ok_iff.1 hread
  have hsource := @source_entryOf s d path reason removed stamp bytes hpath h.current
  refine h.entered hid hnew honly (by simp [entryOf, recordOf]) (by simp)
    (List.forall_mem_singleton.2 ?_) (List.forall_mem_singleton.2 ?_) fun q bytes' hq hfile' => ?_
  · exact {
      isId := hid
      used := List.mem_cons_self ..
      isName := hstored.isName
      located := hstored.located
      notDirectory := by
        rw [hstored.entry]
        simp }
  · exact {
      settled := hsource ▸ .of_reachable (Disk.reachable_resolve hlocate)
      own := fun hinside => by
        rw [hsource, ← Disk.eq_of_locate hlocate] at hinside ⊢
        exact h.own q bytes hinside hfile }
  · -- below the new directory there is the copy, and nothing else
    rw [hentry] at hfile'
    split at hfile'
    · next heq =>
      cases hfile'
      refine .inr ⟨_, List.mem_singleton_self _, ?_, rfl⟩
      rw [heq]
      exact (copyPlace_entryOf h.placed.proper hname).symm
    split at hfile'
    · cases hfile'
    · rw [hunused q hq] at hfile'
      cases hfile'

/-- A backup fails and has made a directory at most, or it succeeds; the store is tidy
afterwards. -/
theorem Tidy.cases_backup (h : s.Tidy d ids kept) (hpath : path.Proper)
    (hid : Stamp.IsId stamp.id) (hnew : stamp.id ∉ ids)
    (hout : (s.backup path reason removed stamp).outcome d = (result, d')) :
    (∃ e, result = .error e ∧ Action.Widened d d' ∧ s.Tidy d' (stamp.id :: ids) kept)
      ∨ ∃ bytes, result = .ok () ∧ d.read path = .ok bytes
        ∧ ((∀ v ∈ removed, v.WellNamed) → s.Tidy d' (stamp.id :: ids)
          (kept ++ [s.entryOf d path reason removed stamp bytes])) := by
  obtain ⟨rs, hlists, hknown⟩ := h.lists
  rcases Store.cases_backup h.placed hid hpath hlists h.manifest_ne_directory h.draft hout with
    ⟨e, rfl, -, hmade⟩ | ⟨bytes, rfl, hread, hname, hmoments, hlocated, rfl⟩
  · exact .inl ⟨e, rfl, h.prepared hid hnew
      (hmade (h.unused stamp.id hid hnew _ copiesPlace_isPrefix_copyPlace))⟩
  · refine .inr ⟨bytes, rfl, hread, fun hremoved => ?_⟩
    have hcopied := @Tidy.copied s d ids kept bytes path reason removed stamp h hpath hid hnew hname
      hread hmoments.last hlocated
    have hlisted := hcopied.listed (hknown.concat (k := s.entryOf d path reason removed stamp bytes)
      hremoved)
    rw [writing_of_current (Disk.current_after d _), Disk.after_after] at hlisted
    exact hlisted

end Backups

/-! ## Restorations -/

namespace Tidy

theorem ne_directory_of_own (h : s.Tidy d ids kept) (hown : s.Own d kept q bytes) :
    d.files.entry? q ≠ some .directory := by
  rcases hown with ⟨rfl, -⟩ | ⟨k, hk, rfl, -⟩
  · exact h.manifest_ne_directory
  · exact (h.filed k hk).notDirectory

/-- A copy is restored to the path of its file; if a directory is there by now, into it. In the
store there is none, so what is written there is the file itself. -/
theorem eq_source_of_target (h : s.Tidy d ids kept) (hk : k ∈ kept)
    (hplace : d.locate (Action.copyTarget d k.copy k.source) = .ok q)
    (hfree : d.files.entry? q ≠ some .directory) (hinside : s.place d <+: q) :
    q = k.source.parts := by
  have hsourced := h.sourced k hk
  have hfiled := h.filed k hk
  rw [Action.copyTarget] at hplace
  split at hplace
  · next hdirectory =>
    exfalso
    have hparts : k.copy.parts ≠ [] := fun hnil =>
      hfiled.isName.ne_empty (by rw [Path.name, hnil]; rfl)
    rw [Path.lastWord_eq_name hparts] at hplace
    obtain ⟨between, hfollow, hdir, -, rfl⟩ := Disk.of_locate_join hplace hfiled.isName
      (Disk.name_ne_up_of_locate hfiled.located hfiled.notDirectory hparts)
    obtain ⟨q', hq', -⟩ := Disk.isDirectory_iff.1 hdirectory
    rw [(Disk.locate_eq_ok_iff.1 hq').2] at hfollow
    cases hfollow
    obtain rfl := hsourced.settled.eq_of_locate hq'
    rcases List.prefix_concat_iff.1 hinside with heq | hinside
    · exact hfree (heq ▸ h.placed.directory)
    · exact h.ne_directory_of_own (hsourced.own hinside) hdir
  · exact hsourced.settled.eq_of_locate hplace

/-- The copy of an entry is written where a restoration writes it. -/
theorem restored (h : s.Tidy d ids kept) (hk : k ∈ kept) (hread : d.read k.copy = .ok bytes)
    (hplace : d.locate (Action.copyTarget d k.copy k.source) = .ok q)
    (hfree : d.files.entry? q ≠ some .directory) :
    s.Tidy (d.after (Action.copied d k.copy q bytes)) ids kept := by
  refine (h.written hfree fun hinside => ?_).tolerates
    (tolerates_alike (Action.alike_copied d k.copy q bytes))
  obtain ⟨place, hlocate, hfile⟩ := Disk.read_eq_ok_iff.1 hread
  rw [(h.filed k hk).located] at hlocate
  cases hlocate
  rw [h.bytes_of_copy hk hfile]
  obtain rfl := h.eq_source_of_target hk hplace hfree hinside
  exact (h.sourced k hk).own hinside

/-- Once a copy was written back, its record can be marked. -/
theorem exists_outcome_markRestored (h : s.Tidy d ids kept) (id : String) :
    ∃ d', (s.markRestored id).outcome d = (.ok (), d') ∧ s.Tidy d' ids kept := by
  obtain ⟨rs, hlists, hknown⟩ := h.lists
  refine ⟨_, ?_, h.listed (hknown.markFirst id)⟩
  rw [outcome_markRestored hlists,
    outcome_writeManifest h.placed h.manifest_ne_directory (FileSystem.accepts_of_none h.draft)]

/-- What a restoration does for a copy that is there: it fails and has made directories at most,
unless it was refused to write a locked file; or it succeeds. -/
theorem cases_restoreCopy (h : s.Tidy d ids kept) (hk : k ∈ kept)
    (hout : (onFiles (.ensureDirectories k.source.parent) >>= fun _ =>
      onFiles (.copy k.copy k.source) >>= fun _ => s.markRestored id).outcome d = (result, d')) :
    (∃ e made, result = .error e ∧ Action.Widened d made ∧ Disk.Alike made d'
        ∧ s.Tolerates kept d d')
      ∨ result = .ok () ∧ s.Tidy d' ids kept := by
  -- the directories
  rcases Action.cases_bind hout with ⟨e, hmade, rfl⟩ | ⟨_, made, hmade, hout⟩
  · rcases cases_onFiles hmade with ⟨_, hmade, -⟩ | ⟨_, _, hno⟩
    · exact .inl ⟨e, d', rfl, (Action.widened_ensureDirectories hmade).1, .refl d',
        h.tolerates_made hk hmade⟩
    · cases hno
  rcases cases_onFiles hmade with ⟨_, _, hno⟩ | ⟨_, hmade, -⟩
  · cases hno
  have htolerates := h.tolerates_made hk hmade
  have htidy := h.tolerates htolerates
  have hwide := (Action.widened_ensureDirectories hmade).1
  -- the copy
  rcases hcopied : (Action.copy k.copy k.source).outcome made with ⟨r, copied⟩
  rcases Action.cases_copy hcopied with ⟨e, rfl, rfl⟩ | ⟨bytes, q, hread, hplace,
    ⟨-, ⟨e, rfl⟩, rfl⟩ | ⟨hfree, rfl, rfl⟩⟩
  · rw [Action.outcome_bind_error (outcome_onFiles_error hcopied)] at hout
    cases hout
    exact .inl ⟨_, _, rfl, hwide, .refl _, htolerates⟩
  · rw [Action.outcome_bind_error (outcome_onFiles_error hcopied)] at hout
    cases hout
    have hrefused := Disk.alike_refuse made q
    exact .inl ⟨_, _, rfl, hwide, hrefused, htolerates.alike hrefused⟩
  rw [Action.outcome_bind_ok (outcome_onFiles_ok hcopied)] at hout
  -- the mark
  obtain ⟨d'', hmarked, htidy'⟩ :=
    (htidy.restored hk hread hplace hfree.notDirectory).exists_outcome_markRestored id
  rw [hmarked] at hout
  cases hout
  exact .inr ⟨rfl, htidy'⟩

/-- A restoration fails and has made directories at most, and none in the store; or it succeeds,
and the store is tidy afterwards. -/
theorem cases_restore (h : s.Tidy d ids kept) (hout : (s.restore id).outcome d = (result, d')) :
    (∃ e made, result = .error e ∧ Action.Widened d made ∧ Disk.Alike made d'
        ∧ s.Tolerates kept d d')
      ∨ result = .ok () ∧ s.Tidy d' ids kept := by
  have hnothing : s.Tolerates kept d d := tolerates_alike (.refl d)
  obtain ⟨rs, hlists, hknown⟩ := h.lists
  rcases hfind : rs.find? (·.id = id) with - | r
  · rw [outcome_restore_unknown hlists hfind] at hout
    cases hout
    exact .inl ⟨_, d, rfl, .refl, .refl d, hnothing⟩
  rcases hrestored : r.restored with - | -
  · -- the record has the paths of an entry
    obtain ⟨-, k, hk, -, hsource, hcopy⟩ := hknown r (List.mem_of_find?_eq_some hfind)
    have hsource' : (Kept.mk r k.bytes).source = k.source := congrArg Path.ofText hsource
    have hcopy' : (Kept.mk r k.bytes).copy = k.copy := congrArg Path.ofText hcopy
    by_cases hthere : d.isThere k.copy = .ok true
    · rw [@outcome_restore s d id rs ⟨r, k.bytes⟩ hlists hfind hrestored (hcopy' ▸ hthere), hsource',
        hcopy'] at hout
      exact h.cases_restoreCopy hk hout
    · obtain ⟨e, herror⟩ := @outcome_restore_of_not_isThere s d id rs ⟨r, k.bytes⟩ hlists hfind
        hrestored (hcopy' ▸ hthere)
      rw [herror] at hout
      cases hout
      exact .inl ⟨e, d, rfl, .refl, .refl d, hnothing⟩
  · rw [outcome_restore_restored hlists hfind hrestored] at hout
    cases hout
    exact .inr ⟨rfl, h⟩

end Tidy

/-! ## Runs -/

section Runs

variable {st : State} {event : Event} {events : List Event}

/-- What may happen to a store that is to lose nothing. Every backup gets an id that none had
before, and may be one of a file of the store. -/
def Admitted (s : Store) (st : State) : Event → Prop
  | .backup path _ removed stamp =>
    path.Proper ∧ (∀ v ∈ removed, v.WellNamed) ∧ Stamp.IsId stamp.id ∧ stamp.id ∉ st.ids
  | .restore _ => True
  | .others left => s.Tolerates st.kept st.disk left

/-- Each event of a run may happen when it does. -/
def AllAdmitted (s : Store) (st : State) : List Event → Prop
  | [] => True
  | event :: rest => s.Admitted st event ∧ s.AllAdmitted (s.next st event) rest

/-- A store that was opened on a fresh directory is tidy: there is the manifest, and nothing
else. -/
theorem Fresh.tidy (h : s.Fresh d) : s.Tidy (s.start d).disk [] [] where
  toInOrder := h.sound.safe.inOrder
  own q bytes hq hfile := by
    obtain ⟨made, -, hplaced, hempty, hstart⟩ :=
      exists_made_of_empty h.directory h.empty h.outcome_open
    have hcurrent : (s.start d).disk.current = made.current := by
      rw [hstart]
      rfl
    rw [place_of_current hcurrent] at hq
    rw [hstart, entry?_writing] at hfile
    split at hfile
    · next hmanifest =>
      cases hfile
      exact .inl ⟨by rw [hmanifest, manifestPlace_of_current hcurrent], [], .nil [],
        by rw [Manifest.empty_eq]⟩
    split at hfile
    · cases hfile
    by_cases hne : q = s.place made
    · rw [hne, hplaced.directory] at hfile
      cases hfile
    · rw [hempty q hq hne] at hfile
      cases hfile
  same := by simp
  filed := by simp
  sourced := by simp

/-- Whatever happens, a tidy store stays tidy. -/
theorem Tidy.next (h : s.Tidy st.disk st.ids st.kept) (hadmitted : s.Admitted st event) :
    s.Tidy (s.next st event).disk (s.next st event).ids (s.next st event).kept := by
  cases event with
  | backup path reason removed stamp =>
    obtain ⟨hpath, hremoved, hid, hnew⟩ := hadmitted
    rcases hout : (s.backup path reason removed stamp).outcome st.disk with ⟨result, d'⟩
    rcases h.cases_backup hpath hid hnew hout with ⟨e, rfl, -, htidy⟩ | ⟨bytes, rfl, hread, htidy⟩
    · simp only [Store.next, hout]
      exact htidy
    · simp only [Store.next, hout, hread]
      exact htidy hremoved
  | restore id =>
    rcases hout : (s.restore id).outcome st.disk with ⟨result, d'⟩
    rcases h.cases_restore hout with ⟨e, made, rfl, -, -, htolerates⟩ | ⟨rfl, htidy⟩
    · simp only [Store.next, hout]
      exact h.tolerates htolerates
    · simp only [Store.next, hout]
      exact htidy.marked id
  | others left => exact h.tolerates hadmitted

/-- A store that is tidy stays so through a whole run. -/
theorem Tidy.after (h : s.Tidy st.disk st.ids st.kept) (hadmitted : s.AllAdmitted st events) :
    s.Tidy (s.after st events).disk (s.after st events).ids (s.after st events).kept := by
  induction events generalizing st with
  | nil => exact h
  | cons event events ih => exact ih (h.next hadmitted.1) hadmitted.2

end Runs

/-! ## Nothing is lost -/

/-- Every file has the bytes that it had, and there is no file that was not there; the records
that are listed are the same. -/
structure LosesNothing (s : Store) (d d' : Disk) : Prop where
  files : ∀ q, d'.files.bytesAt? q = d.files.bytesAt? q
  records : ∃ listed, s.records.outcome d = (.ok (.array listed), d)
    ∧ s.records.outcome d' = (.ok (.array listed), d')

/-- Directories that were made at most are no loss, and neither is a lock. -/
theorem Tidy.losesNothing {made : Disk} (h : s.Tidy d ids kept) (hwide : Action.Widened d made)
    (ha : Disk.Alike made d') : s.LosesNothing d d' where
  files q := (ha.bytesAt? q).trans (hwide.bytesAt? q)
  records := by
    obtain ⟨rs, hlists, -⟩ := h.lists
    obtain ⟨bytes, hfile⟩ := h.manifest
    have hlists' : s.Lists d' rs :=
      (manifestOf_congr h.placed (hwide.continues.trans ha.continues) (by
        rw [ha.entry, hfile]
        exact hwide.entry_file.2 hfile)).trans hlists
    exact ⟨_, hlists.records, hlists'.records⟩

/-- From a fresh directory on, whatever was backed up and restored before, whatever others did
to files elsewhere and whichever copies they deleted: a backup or a restoration that fails, for
whatever reason, leaves every file and the list of records as they were. -/
theorem losesNothing_of_failing {events : List Event} (hfresh : s.Fresh d)
    (hadmitted : s.AllAdmitted (s.start d) events) {e : Fault} :
    (∀ path reason removed stamp, path.Proper → Stamp.IsId stamp.id →
        stamp.id ∉ (s.after (s.start d) events).ids →
        (s.backup path reason removed stamp).outcome (s.after (s.start d) events).disk
          = (.error e, d') → s.LosesNothing (s.after (s.start d) events).disk d')
      ∧ ∀ id, (s.restore id).outcome (s.after (s.start d) events).disk = (.error e, d') →
        s.LosesNothing (s.after (s.start d) events).disk d' := by
  have htidy := hfresh.tidy.after hadmitted
  refine ⟨fun path reason removed stamp hpath hid hnew hout => ?_, fun id hout => ?_⟩
  · rcases htidy.cases_backup hpath hid hnew hout with ⟨_, -, hwide, -⟩ | ⟨_, hno, -⟩
    · exact htidy.losesNothing hwide (.refl d')
    · cases hno
  · rcases htidy.cases_restore hout with ⟨_, _, -, hwide, halike, -⟩ | ⟨hno, -⟩
    · exact htidy.losesNothing hwide halike
    · cases hno

/-! ## A copy that is gone -/

/-- What is left after others have deleted the copy of the file. -/
def lostCopy : Disk :=
  let d := (trash.next (trash.start oneFile) firstBackup).disk
  { d with files := d.files.erase ["trash", firstStamp.id, "a.js"] }

/-- The stamp of a second copy. -/
def secondStamp : Stamp := ⟨"20260102_030406_0a1b2d", "2026-01-02T03:04:06"⟩

/-- The copy is not there, and backups of what is not a file fail. -/
theorem outcomes_lostCopy : lostCopy.isThere ⟨.slash, ["trash", firstStamp.id, "a.js"]⟩ = .ok false
    ∧ ((trash.backup (.ofText "/b.js") "super-methods" [] secondStamp).outcome lostCopy).1
      = .error (.noSource "/b.js")
    ∧ ((trash.backup (.ofText "/trash") "super-methods" [] secondStamp).outcome lostCopy).1
      = .error (.files (.refused .isDirectory "/trash")) := by
  decide +kernel

theorem tolerates_lostCopy : trash.Tolerates (trash.next (trash.start oneFile) firstBackup).kept
    (trash.next (trash.start oneFile) firstBackup).disk lostCopy := by
  obtain ⟨k, hkept, ⟨hid, -⟩, -, hcopy, hcurrent, hentries⟩ := exists_next_firstBackup
  refine tolerates_erase (hentries _ (by simp)) (.inr ⟨k, ?_, ?_⟩)
  · rw [hkept]
    exact List.mem_singleton_self k
  · rw [copyPlace, copiesPlace, place, hcurrent, hid, hcopy]
    rfl

/-- A restoration of the copy that is gone fails. -/
theorem outcome_restore_lostCopy : (trash.restore firstStamp.id).outcome lostCopy
    = (.error (.noCopy "/trash/20260102_030405_0a1b2c/a.js"), lostCopy) := by
  have hsound := fresh_oneFile.sound.next allowed_firstBackup
  obtain ⟨k, hkept, ⟨hid, hrestored⟩, -, hcopy, -⟩ := exists_next_firstBackup
  have hk : k ∈ (trash.next (trash.start oneFile) firstBackup).kept := by
    rw [hkept]
    exact List.mem_singleton_self k
  have htext : toString k.copy = "/trash/20260102_030405_0a1b2c/a.js" := by
    rw [hcopy]
    rfl
  rw [← hid, ← htext]
  exact outcome_restore_noCopy (tolerates_lostCopy.lists hsound.safe.placed hsound.lists)
    (find?_append_record (by simp) hsound.safe.consistent.nodup hk) hrestored
    (hcopy ▸ outcomes_lostCopy.1)

/-- Once its copy was deleted, the file cannot be restored, and nothing is lost by trying; nor is
it by a backup of a file that is not there, or of a directory. -/
theorem losesNothing_of_failing_lostCopy :
    (trash.Fresh oneFile
        ∧ trash.AllAdmitted (trash.start oneFile) [firstBackup, .others lostCopy])
      ∧ (∃ d, (trash.restore firstStamp.id).outcome lostCopy
          = (.error (.noCopy "/trash/20260102_030405_0a1b2c/a.js"), d)
        ∧ trash.LosesNothing lostCopy d)
      ∧ (∃ d, (trash.backup (.ofText "/b.js") "super-methods" [] secondStamp).outcome lostCopy
          = (.error (.noSource "/b.js"), d) ∧ trash.LosesNothing lostCopy d)
      ∧ ∃ d, (trash.backup (.ofText "/trash") "super-methods" [] secondStamp).outcome lostCopy
          = (.error (.files (.refused .isDirectory "/trash")), d)
        ∧ trash.LosesNothing lostCopy d := by
  have hadmitted : trash.AllAdmitted (trash.start oneFile) [firstBackup, .others lostCopy] :=
    ⟨⟨Path.proper_ofText _, by simp, isId_firstStamp, by simp [start]⟩, tolerates_lostCopy,
      trivial⟩
  have hisId : Stamp.IsId secondStamp.id := ⟨by decide, by decide⟩
  have hnew : secondStamp.id
      ∉ (trash.after (trash.start oneFile) [firstBackup, .others lostCopy]).ids := by
    simp [after, firstBackup, start, firstStamp, secondStamp]
  have hfails : ∀ path e, path.Proper →
      ((trash.backup path "super-methods" [] secondStamp).outcome lostCopy).1 = .error e →
      ∃ d, (trash.backup path "super-methods" [] secondStamp).outcome lostCopy = (.error e, d)
        ∧ trash.LosesNothing lostCopy d := fun path e hpath herror =>
    ⟨_, Prod.ext herror rfl, (losesNothing_of_failing fresh_oneFile hadmitted).1 _ _ _ _ hpath hisId
      hnew (Prod.ext herror rfl)⟩
  exact ⟨⟨fresh_oneFile, hadmitted⟩,
    ⟨_, outcome_restore_lostCopy,
      (losesNothing_of_failing fresh_oneFile hadmitted).2 _ outcome_restore_lostCopy⟩,
    hfails _ _ (Path.proper_ofText _) outcomes_lostCopy.2.1,
    hfails _ _ (Path.proper_ofText _) outcomes_lostCopy.2.2⟩

end Store

end SuperForward.Backup
