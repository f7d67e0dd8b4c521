/-
  The law of a backup store.

  From a fresh directory on, through any backups, restorations and changes by others elsewhere,
  the store lists the records of its ledger, holds the bytes of every copy and gives them back.
-/
import SuperForward.Proofs.Backup.Opening

namespace SuperForward.Backup

open SuperForward.Files (Path Disk Action Location Entry FileSystem Change)
open SuperForward.Json (Value)
open SuperForward.Text (Bytes)

namespace Store

variable {s : Store} {d : Disk} {older : List Record} {st : State} {k : Kept}
  {events : List Event}

/-! ## The law -/

theorem Sound.restores {d' : Disk} {r : Except Fault Unit} (h : s.Sound [] st) (hk : k ∈ st.kept)
    (hrestored : k.record.restored = false)
    (hout : (s.restore k.record.id).outcome st.disk = (r, d')) : s.Restores st k r d' := by
  obtain ⟨x, made, hmade, hcases⟩ := h.cases_restore hk hrestored hout
  obtain ⟨hwide, -⟩ := Action.widened_ensureDirectories hmade
  have hsound := h.made hk hmade
  -- the path cannot be asked for, the write is refused, or the copy is put back
  rcases hcases with ⟨e, rfl, rfl, hask⟩ | ⟨rfl, rfl, hlocked⟩ | ⟨rfl, hlocate, hlocked, rfl⟩
  · exact {
      succeeds := fun hfits => absurd hfits hask
      refused := fun hfits => absurd hfits hask
      source := fun hno => by cases hno
      records := fun hno => by cases hno
      others := fun q _ => hwide.bytesAt? q }
  · exact {
      succeeds := fun _ hfree => by
        rw [hlocked] at hfree
        cases hfree
      refused := fun _ _ => rfl
      source := fun hno => by cases hno
      records := fun hno => by cases hno
      others := fun q _ =>
        ((Disk.alike_refuse made _).bytesAt? q).trans (hwide.bytesAt? q) }
  · exact {
      succeeds := fun _ _ => rfl
      refused := fun _ hno => by
        rw [hlocked] at hno
        cases hno
      source := fun _ => Disk.read_eq_ok_iff.2
        ⟨_, Disk.locate_mono (hsound.safe.continues_restoredFrom hk) hlocate,
          hsound.safe.entry?_restoredFrom_self hk⟩
      records := fun _ => by
        have hlists := (hsound.restoredFrom hk).lists.records
        rw [List.nil_append, List.map_map, List.map_map] at hlists
        exact hlists
      others := fun q hq => by
        obtain ⟨hsource, hmanifest⟩ := hq rfl
        rw [← manifestPlace_of_current hwide.current] at hmanifest
        rw [hsound.safe.bytesAt?_restoredFrom hk hsource hmanifest, hwide.bytesAt?] }

/-- A sound store keeps the law. -/
theorem Sound.keepsLaw (h : s.Sound [] st) : s.KeepsLaw st where
  records := by
    have hlists := h.lists.records
    rw [List.nil_append, List.map_map] at hlists
    exact hlists
  copies k hk := (h.safe.stored k hk).read
  restores k hk hrestored r d hout := h.restores hk hrestored hout
  restored k hk hrestored := h.outcome_restored hk hrestored
  unknown id hid := h.outcome_unknown (by simp) hid

/-! ## Ledgers along a run -/

theorem CarriedOn.refl (s : Store) (st : State) : s.CarriedOn st [] :=
  ⟨st.kept, [], (List.append_nil _).symm, List.forall₂_same.2 fun _ _ => .inl rfl⟩

/-- The ledger is carried on by one event more. -/
theorem CarriedOn.concat (h : s.CarriedOn st events) (event : Event) :
    s.CarriedOn st (events ++ [event]) := by
  obtain ⟨now, more, hkept, hnow⟩ := h
  -- when an entry was marked is a fact about the beginning of the history, and stays one
  have hlater : List.Forall₂ (fun k k' => k' = k ∨ k.record.restored = false ∧ k' = k.marked
      ∧ ∃ before rest, events ++ [event] = before ++ .restore k.record.id :: rest
        ∧ ((s.restore k.record.id).outcome (s.after st before).disk).1 = .ok ()) st.kept now := by
    refine hnow.imp fun k k' hk => hk.imp id ?_
    rintro ⟨hrestored, rfl, before, rest, rfl, hok⟩
    exact ⟨hrestored, rfl, before, rest ++ [event], by simp, hok⟩
  have hnext : s.after st (events ++ [event]) = s.next (s.after st events) event := by
    rw [after_append]
    rfl
  unfold CarriedOn
  rw [hnext]
  cases event with
  | others left => exact ⟨now, more, hkept, hlater⟩
  | backup path reason removed stamp =>
    simp only [next]
    split
    · exact ⟨now, more ++ [_], by rw [hkept, List.append_assoc], hlater⟩
    · exact ⟨now, more, hkept, hlater⟩
  | restore id =>
    rcases hout : (s.restore id).outcome (s.after st events).disk with ⟨e | ⟨⟩, d'⟩
    · simp only [next, hout]
      exact ⟨now, more, hkept, hlater⟩
    · simp only [next, hout]
      -- only the entry with this id is marked, if it was not before
      refine ⟨now.map (Kept.markedFor id), more.map (Kept.markedFor id),
        by rw [hkept, List.map_append], List.forall₂_map_right_iff.2 (hlater.imp fun k k' hk => ?_)⟩
      unfold Kept.markedFor
      split
      · next hid =>
        rcases hk with rfl | ⟨hrestored, rfl, hwhen⟩
        · rcases hrestored : k'.record.restored with - | -
          · refine .inr ⟨rfl, rfl, events, [], by rw [hid], ?_⟩
            rw [hid, hout]
          · exact .inl (marked_of_restored hrestored)
        · exact .inr ⟨hrestored, rfl, hwhen⟩
      · exact hk

/-- Whatever happens, the ledger is carried on. -/
theorem carriedOn (s : Store) (st : State) (events : List Event) : s.CarriedOn st events := by
  induction events using List.reverseRecOn with
  | nil => exact .refl s st
  | append_singleton events event ih => exact ih.concat event

/-! ## The manifest among the files that are backed up -/

theorem markFirstRecord_of_forall_ne {rs : List Record} {id : String} (h : ∀ r ∈ rs, r.id ≠ id) :
    Manifest.markFirstRecord id rs = rs := by
  induction rs with
  | nil => rfl
  | cons r rs ih =>
    rw [Manifest.markFirstRecord, if_neg (h r (List.mem_cons_self ..)),
      ih fun r' hr' => h r' (List.mem_cons_of_mem _ hr')]

/-- A restoration that writes an older manifest brings back the list of that manifest. -/
theorem Safe.forgets {ids : List String} {kept : List Kept} {rs : List Record}
    (h : s.Safe d ids kept) (hlists : s.Lists d (rs ++ [k.record])) (hformed : ∀ r ∈ rs, r.Formed)
    (hnew : ∀ r ∈ rs, r.id ≠ k.record.id) (hrestored : k.record.restored = false)
    (hstored : s.Stored d k) (hbytes : k.bytes = Manifest.written (Manifest.ofRecords rs))
    (hreach : d.Reachable k.source) (hask : k.source.Askable)
    (hsource : k.source.parts = s.manifestPlace d)
    (hunlocked : d.files.isLocked (s.manifestPlace d) = false) :
    ∃ d', (s.restore k.record.id).outcome d = (.ok (), d') ∧ s.Lists d' rs := by
  have hfind : (rs ++ [k.record]).find? (·.id = k.record.id) = some k.record := by
    rw [List.find?_append, List.find?_eq_none.2 fun r hr => by simpa using hnew r hr]
    simp
  have hthere : d.isThere k.copy = .ok true :=
    Disk.isThere_of_lookUp (Disk.lookUp_of_locate hstored.located hstored.entry)
  have hparts : k.source.parts ≠ [] := hsource ▸ manifestPlace_ne_nil s d
  have hdir : d.isDirectory k.source.parent = true := Disk.isDirectory_iff.2
    ⟨_, hreach.parent.locate (hask.parent hreach.absolute hparts), hreach.isDirectory_parent hparts⟩
  have hmade : (Action.ensureDirectories k.source.parent).outcome d = (.ok (), d) :=
    (Action.outcome_ensureDirectories hreach.parent.locate_ne_missing).trans
      (Action.outcome_ensureDirectory hdir)
  have hne : s.copyPlace d k.record.id k.copy ≠ k.source.parts := by
    rw [hsource]
    simp [copyPlace, copiesPlace, manifestPlace]
  have hfree : d.files.entry? k.source.parts ≠ some .directory := by
    rw [hsource]
    exact h.manifest_ne_directory
  have hcopied := Action.outcome_copy hstored.read hstored.located (hreach.locate hask) hne
    ⟨hfree, hsource ▸ hunlocked⟩
  -- the manifest is the older one now
  obtain ⟨copied, hcopiedEq⟩ :
      ∃ copied, copied = d.after (Action.copied d k.copy k.source.parts k.bytes) := ⟨_, rfl⟩
  have hcurrent : copied.current = d.current := by rw [hcopiedEq]; rfl
  have hentry : ∀ q, copied.files.entry? q
      = if q = s.manifestPlace d then some (.file (Manifest.written (Manifest.ofRecords rs)))
        else d.files.entry? q := by
    rw [hcopiedEq, ← hsource, ← hbytes]
    exact Action.entry?_copied hfree
  have hplaced : s.Placed copied := hcopiedEq ▸ h.placed.mono (Action.continues_copied hfree)
  have hmanifest := hentry (s.manifestPlace d)
  have hdraft := hentry (s.draftPlace d)
  rw [if_pos rfl, ← manifestPlace_of_current hcurrent] at hmanifest
  rw [if_neg (manifestPlace_ne_draftPlace s d).symm, h.draft, ← draftPlace_of_current hcurrent]
    at hdraft
  have hfreeManifest : copied.files.entry? (s.manifestPlace copied) ≠ some .directory := by
    rw [hmanifest]
    simp
  have hfreeDraft := FileSystem.accepts_of_none hdraft
  rw [← hcopiedEq] at hcopied
  refine ⟨_, ?_, lists_writing hplaced hformed hfreeManifest hfreeDraft.notDirectory⟩
  rw [outcome_restore hlists hfind hrestored hthere,
    Action.outcome_bind_ok (outcome_onFiles_ok hmade),
    Action.outcome_bind_ok (outcome_onFiles_ok hcopied),
    outcome_markRestored (lists_of_entry hplaced hformed hmanifest),
    markFirstRecord_of_forall_ne hnew, outcome_writeManifest hplaced hfreeManifest hfreeDraft]

/-- A store can be made to forget a record: a copy of its own manifest brings back the list that
was there before, and with it goes the record of the copy itself. -/
theorem Sound.forgets {path : Path} {reason : String} {removed : List Value} {stamp : Stamp}
    {d' : Disk} (h : s.Sound [] st) (hpath : path.Proper) (hremoved : ∀ v ∈ removed, v.Formed)
    (hid : Stamp.IsId stamp.id) (hnew : stamp.id ∉ st.ids)
    (hlocate : st.disk.locate path = .ok (s.manifestPlace st.disk))
    (hask : (path.resolve st.disk.current).Askable)
    (hout : (s.backup path reason removed stamp).outcome st.disk = (.ok (), d')) :
    ∃ r d'', s.records.outcome d'
        = (.ok (.array ((st.kept.map Kept.record ++ [r]).map Record.toValue)), d')
      ∧ (s.restore stamp.id).outcome d' = (.ok (), d'')
      ∧ s.records.outcome d'' = (.ok (.array ((st.kept.map Kept.record).map Record.toValue)), d'') := by
  rcases cases_backup h.safe.placed hid hpath h.lists h.safe.manifest_ne_directory
    h.safe.draft hout with ⟨_, hno, _⟩ | ⟨bytes, -, hread, hname, hmoments, hlocated, rfl⟩
  · cases hno
  have honly := hmoments.last
  -- the copy is one of the manifest as it was
  obtain ⟨q, hq, hfile⟩ := Disk.read_eq_ok_iff.1 hread
  rw [hlocate] at hq
  cases hq
  obtain rfl : bytes = Manifest.written (Manifest.ofRecords (st.kept.map Kept.record)) := by
    rw [h.listed] at hfile
    cases hfile
    rfl
  obtain ⟨copied, hcopied⟩ : ∃ copied, copied = st.disk.after (s.copying st.disk stamp.id path
    (Manifest.written (Manifest.ofRecords (st.kept.map Kept.record)))) := ⟨_, rfl⟩
  obtain ⟨k, hk⟩ : ∃ k, k = s.entryOf st.disk path reason removed stamp
    (Manifest.written (Manifest.ofRecords (st.kept.map Kept.record))) := ⟨_, rfl⟩
  have hentry : copied.files.entry? (s.copyPlace st.disk stamp.id path)
      = some (.file (Manifest.written (Manifest.ofRecords (st.kept.map Kept.record)))) := by
    rw [hcopied, entry?_copying (h.safe.unused _ hid hnew _ copiesPlace_isPrefix_copyPlace),
      if_pos rfl]
  have hcurrent : copied.current = st.disk.current := by rw [hcopied]; rfl
  have hid' : k.record.id = stamp.id := by rw [hk]; rfl
  have hrecord : s.recordOf st.disk path reason removed stamp
      (Manifest.written (Manifest.ofRecords (st.kept.map Kept.record))) = k.record := by rw [hk]; rfl
  rw [← hcopied] at honly hlocated
  rw [← Disk.after_after, ← hcopied, hrecord, ← writing_of_current hcurrent]
  -- the store is as safe as before, but the new record is not one of the ledger
  have hsafe := h.safe.onlyBelow hid hnew honly
  have hstored : s.Stored copied k := hk ▸
    stored_entryOf h.safe.placed.proper hname hcurrent hlocated hentry
  have hsource : k.source = path.resolve st.disk.current := hk ▸
    source_entryOf hpath h.safe.current
  have hformed : ∀ r ∈ st.kept.map Kept.record, r.Formed :=
    List.forall_mem_map.2 fun k hk => (h.safe.consistent.apart k hk).formed
  have hformed' : k.record.Formed := hk ▸ hremoved
  have hlists : s.Lists _ (st.kept.map Kept.record ++ [k.record]) :=
    lists_writing hsafe.placed (List.forall_mem_append.2 ⟨hformed, by simpa using hformed'⟩)
      hsafe.manifest_ne_directory hsafe.draft_ne_directory
  have hcont := honly.continues.trans
    (@continues_writing s copied (Manifest.ofRecords (st.kept.map Kept.record ++ [k.record]))
      hsafe.manifest_ne_directory hsafe.draft_ne_directory)
  obtain ⟨d'', hrestore, hforgotten⟩ := (hsafe.listed _).forgets hlists hformed
    (List.forall_mem_map.2 fun k' hk' heq =>
      hnew (hid' ▸ heq ▸ (h.safe.consistent.apart k' hk').used))
    (by rw [hk]; rfl)
    (hstored.writing _ hsafe.manifest_ne_directory hsafe.draft_ne_directory) (by rw [hk]; rfl)
    (by
      rw [hsource]
      exact (Disk.reachable_resolve hlocate).mono hcont)
    (by rwa [hsource])
    (by rw [hsource, ← Disk.eq_of_locate hlocate, manifestPlace_of_current hcont.current])
    (by
      rw [manifestPlace_of_current (Disk.current_after copied _)]
      exact isLocked_writing)
  exact ⟨k.record, d'', hlists.records, hid' ▸ hrestore, hforgotten.records⟩

/-! ## A store at the top -/

/-- A store at the top. -/
def trash : Store := ⟨.ofText "/trash"⟩

/-- A disk with one file. -/
def oneFile : Disk := .start ⟨⟨[(["a.js"], .file [0x61])]⟩, .empty⟩ ⟨.slash, []⟩

theorem entry?_oneFile {q : Location} (h : ["trash"] <+: q) : oneFile.files.entry? q = none := by
  obtain ⟨rest, rfl⟩ := h
  rfl

theorem fresh_oneFile : trash.Fresh oneFile where
  current := by simp [Path.Proper, oneFile, Disk.start]
  directory := Path.proper_ofText _
  opens := by rfl
  empty made hmade q hbelow hne :=
    empty_of_settled ⟨by decide, by decide, by decide⟩ (fun _ => entry?_oneFile) hmade hbelow hne

/-- The stamp of a first copy. -/
def firstStamp : Stamp := ⟨"20260102_030405_0a1b2c", "2026-01-02T03:04:05"⟩

theorem isMade_firstStamp : Stamp.IsMade firstStamp.id :=
  ⟨⟨2026, 1, 2, 3, 4, 5, 0⟩, 0x0a1b2c, by constructor <;> decide, by rfl⟩

theorem isId_firstStamp : Stamp.IsId firstStamp.id := isMade_firstStamp.isId

/-- The file is backed up. -/
def firstBackup : Event := .backup (.ofText "/a.js") "super-methods" [] firstStamp

theorem allowed_firstBackup : trash.Allowed (trash.start oneFile) firstBackup :=
  ⟨Path.proper_ofText _, by simp, isId_firstStamp, by simp [start], by decide⟩

/-- There are the file and its copy now, and one entry. -/
theorem exists_next_firstBackup : ∃ k, (trash.next (trash.start oneFile) firstBackup).kept = [k]
    ∧ (k.record.id = firstStamp.id ∧ k.record.restored = false)
    ∧ k.source = ⟨.slash, ["a.js"]⟩ ∧ k.copy = ⟨.slash, ["trash", firstStamp.id, "a.js"]⟩
    ∧ (trash.next (trash.start oneFile) firstBackup).disk.current = ⟨.slash, []⟩
    ∧ ∀ place ∈ [["a.js"], ["trash", firstStamp.id, "a.js"]],
      (trash.next (trash.start oneFile) firstBackup).disk.files.entry? place
        = some (.file [0x61]) := by
  have hleft : (trash.next (trash.start oneFile) firstBackup).kept.map
        (fun k => ((k.record.id, k.record.restored), k.source, k.copy))
          = [((firstStamp.id, false), ⟨.slash, ["a.js"]⟩,
            ⟨.slash, ["trash", firstStamp.id, "a.js"]⟩)]
      ∧ (trash.next (trash.start oneFile) firstBackup).disk.current = ⟨.slash, []⟩
      ∧ ∀ place ∈ [["a.js"], ["trash", firstStamp.id, "a.js"]],
        (trash.next (trash.start oneFile) firstBackup).disk.files.entry? place
          = some (.file [0x61]) := by decide +kernel
  obtain ⟨hkept, hdisk⟩ := hleft
  obtain ⟨k, hkept, hk⟩ := List.map_eq_singleton_iff.1 hkept
  simp only [Prod.mk.injEq] at hk
  exact ⟨k, hkept, hk.1, hk.2.1, hk.2.2, hdisk⟩

/-- What is left after others have written the file anew. -/
def overwritten : Disk :=
  let d := (trash.next (trash.start oneFile) firstBackup).disk
  { d with files := d.files.put ["a.js"] (.file [0x62]) }

theorem elsewhere_overwritten : trash.Elsewhere (trash.next (trash.start oneFile) firstBackup).kept
    (trash.next (trash.start oneFile) firstBackup).disk overwritten := by
  obtain ⟨k, hkept, -, hsource, -, hcurrent, hentries⟩ := exists_next_firstBackup
  have hfiles : overwritten.files
      = (trash.next (trash.start oneFile) firstBackup).disk.files.put ["a.js"] (.file [0x62]) := by
    simp only [overwritten]
  refine (fresh_oneFile.sound.next allowed_firstBackup).safe.elsewhere_put ?_ ?_ ?_
    (by simp only [overwritten]) hfiles
  · rw [hentries _ (by decide)]
    simp
  · rw [place, hcurrent]
    decide
  · rw [hkept, List.forall_mem_singleton, hsource]
    exact fun _ => rfl

/-! ## The law over runs -/

/-- From a fresh directory on, the store keeps the law through every run for which it answers:
what it lists, holds and gives back at any time is what the ledger says, and the ledger is only
ever carried on. -/
theorem keepsLaw_after (hfresh : s.Fresh d) (earlier later : List Event)
    (hallowed : s.AllAllowed (s.start d) (earlier ++ later)) :
    s.KeepsLaw (s.after (s.start d) (earlier ++ later))
      ∧ s.CarriedOn (s.after (s.start d) earlier) later :=
  ⟨(hfresh.sound.after hallowed).keepsLaw, s.carriedOn _ later⟩

/-- A file that was backed up and then written by others is restored. -/
theorem keepsLaw_overwritten :
    (trash.Fresh oneFile ∧ trash.AllAllowed (trash.start oneFile)
        [firstBackup, .others overwritten, .restore firstStamp.id])
      ∧ trash.KeepsLaw (trash.after (trash.start oneFile)
        [firstBackup, .others overwritten, .restore firstStamp.id]) := by
  have hallowed : trash.AllAllowed (trash.start oneFile)
      ([firstBackup, .others overwritten] ++ [.restore firstStamp.id]) :=
    ⟨allowed_firstBackup, elsewhere_overwritten, trivial, trivial⟩
  exact ⟨⟨fresh_oneFile, hallowed⟩, (keepsLaw_after fresh_oneFile _ _ hallowed).1⟩

/-- A copy of the manifest of a fresh store is recorded, and once it was restored nothing is. -/
theorem records_forgotten : ∃ r d d',
    (trash.backup (.ofText "/trash/manifest.json") "super-methods" [] firstStamp).outcome
        (trash.start oneFile).disk = (.ok (), d)
      ∧ trash.records.outcome d = (.ok (.array [Record.toValue r]), d)
      ∧ (trash.restore firstStamp.id).outcome d = (.ok (), d')
      ∧ trash.records.outcome d' = (.ok (.array []), d') := by
  rcases hout : (trash.backup (.ofText "/trash/manifest.json") "super-methods" [] firstStamp).outcome
    (trash.start oneFile).disk with ⟨result, d⟩
  have hok : result = .ok () := by
    rw [show result = ((trash.backup (.ofText "/trash/manifest.json") "super-methods" []
      firstStamp).outcome (trash.start oneFile).disk).1 by rw [hout]]
    decide +kernel
  subst hok
  obtain ⟨r, d', hlisted, hrestored, hforgotten⟩ := fresh_oneFile.sound.forgets
    (Path.proper_ofText _) (by simp) isId_firstStamp (by simp [start]) (by rfl)
    ⟨by decide, by decide⟩ hout
  exact ⟨r, d, d', rfl, hlisted, hrestored, hforgotten⟩

end Store

end SuperForward.Backup
