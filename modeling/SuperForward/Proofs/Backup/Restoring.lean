/-
  What one event does to a store and its ledger.

  As long as the store is safe and its manifest lists the ledger, a backup that succeeds adds an
  entry, and a restoration that succeeds writes the file and marks its entry; what fails changes
  no file of the ledger. So the store stays sound from event to event.
-/
import SuperForward.Proofs.Backup.Entering

namespace SuperForward.Backup

open SuperForward.Files (Path Disk Action Location Entry FileSystem Change)
open SuperForward.Json (Value Misfit)
open SuperForward.Text (Bytes)

/-! ## Ledgers and lists of records -/

theorem find?_record {kept : List Kept} {k : Kept} (h : (kept.map fun k => k.record.id).Nodup)
    (hk : k ∈ kept) : (kept.map Kept.record).find? (·.id = k.record.id) = some k.record := by
  induction kept with
  | nil => cases hk
  | cons k' kept ih =>
    obtain ⟨hnot, hrest⟩ := List.nodup_cons.1 h
    rw [List.map_cons, List.find?_cons]
    rcases List.mem_cons.1 hk with rfl | hk
    · simp
    · have hne : k'.record.id ≠ k.record.id :=
        fun heq => hnot (List.mem_map.2 ⟨k, hk, heq.symm⟩)
      simp only [hne, decide_false]
      exact ih hrest hk

/-- Records with other ids before do not count. -/
theorem find?_append_record {older : List Record} {kept : List Kept} {k : Kept}
    (holder : ∀ r ∈ older, r.id ≠ k.record.id) (h : (kept.map fun k => k.record.id).Nodup)
    (hk : k ∈ kept) : (older ++ kept.map Kept.record).find? (·.id = k.record.id) = some k.record := by
  rw [List.find?_append, List.find?_eq_none.2 fun r hr => by simpa using holder r hr,
    Option.none_or, find?_record h hk]

theorem find?_record_eq_none {kept : List Kept} {id : String}
    (h : ∀ k ∈ kept, k.record.id ≠ id) : (kept.map Kept.record).find? (·.id = id) = none := by
  rw [List.find?_eq_none]
  intro r hr
  obtain ⟨k, hk, rfl⟩ := List.mem_map.1 hr
  simpa using h k hk

/-- Where ids are different, marking the first record with an id marks the entries with it. -/
theorem markFirstRecord_map {kept : List Kept} (id : String)
    (h : (kept.map fun k => k.record.id).Nodup) :
    Manifest.markFirstRecord id (kept.map Kept.record)
      = (kept.map (Kept.markedFor id)).map Kept.record := by
  induction kept with
  | nil => rfl
  | cons k kept ih =>
    obtain ⟨hnot, hrest⟩ := List.nodup_cons.1 h
    rw [List.map_cons, Manifest.markFirstRecord, List.map_cons, List.map_cons, Kept.markedFor]
    by_cases hid : k.record.id = id
    · have hothers : kept.map (Kept.markedFor id) = kept := by
        conv_rhs => rw [← List.map_id kept]
        refine List.map_congr_left fun k' hk' => if_neg fun heq => ?_
        exact hnot (List.mem_map.2 ⟨k', hk', heq.trans hid.symm⟩)
      rw [if_pos hid, if_pos hid, hothers]
      rfl
    · rw [if_neg hid, if_neg hid, ih hrest]

theorem markFirstRecord_older {older rs : List Record} {id : String}
    (h : ∀ r ∈ older, r.id ≠ id) :
    Manifest.markFirstRecord id (older ++ rs) = older ++ Manifest.markFirstRecord id rs := by
  induction older with
  | nil => rfl
  | cons r older ih =>
    rw [List.cons_append, Manifest.markFirstRecord, if_neg (h r (List.mem_cons_self ..)),
      ih fun r' hr' => h r' (List.mem_cons_of_mem _ hr'), List.cons_append]

namespace Store

variable {s : Store} {d d' : Disk} {id : String} {rs : List Record} {r : Record}

/-! ## Restorations -/

theorem outcome_restore_unknown (h : s.Lists d rs) (hfind : rs.find? (·.id = id) = none) :
    (s.restore id).outcome d = (.error (.unknownId id), d) := by
  rw [restore, Action.outcome_bind_ok (outcome_record? h id), hfind]
  rfl

theorem outcome_restore_restored (h : s.Lists d rs) (hfind : rs.find? (·.id = id) = some r)
    (hrestored : r.restored = true) : (s.restore id).outcome d = (.ok (), d) := by
  rw [restore, Action.outcome_bind_ok (outcome_record? h id), hfind]
  simp only [Option.map_some, Record.isRestored_toValue, hrestored]
  rfl

theorem outcome_found_pathText (text : String) :
    (found (do (← (.ok (.string text) : Except Misfit Value)).pathText)).outcome d
      = (.ok text, d) := rfl

/-- For a record whose copy was not restored before, it is asked first whether the copy is
there. -/
theorem outcome_restore_asking {k : Kept} (h : s.Lists d rs)
    (hfind : rs.find? (·.id = id) = some k.record) (hrestored : k.record.restored = false) :
    (s.restore id).outcome d = (onFiles (.askFor (·.isThere k.copy)) >>= fun there =>
      if !there then throw (.noCopy (toString k.copy)) else
        onFiles (.ensureDirectories k.source.parent) >>= fun _ =>
          onFiles (.copy k.copy k.source) >>= fun _ => s.markRestored id).outcome d := by
  rw [restore, Action.outcome_bind_ok (outcome_record? h id), hfind]
  simp only [Option.map_some, Record.isRestored_toValue, hrestored, Record.member_copyPath,
    Record.member_sourcePath]
  rw [if_neg Bool.false_ne_true,
    Action.outcome_bind_ok (outcome_found_pathText k.record.copyPath),
    Action.outcome_bind_ok (outcome_found_pathText k.record.sourcePath)]
  rfl

/-- What is done for a copy that is there and was not restored before. -/
theorem outcome_restore {k : Kept} (h : s.Lists d rs) (hfind : rs.find? (·.id = id) = some k.record)
    (hrestored : k.record.restored = false) (hthere : d.isThere k.copy = .ok true) :
    (s.restore id).outcome d
      = (onFiles (.ensureDirectories k.source.parent) >>= fun _ =>
        onFiles (.copy k.copy k.source) >>= fun _ => s.markRestored id).outcome d := by
  rw [outcome_restore_asking h hfind hrestored, Action.outcome_bind_ok (outcome_isThere hthere)]
  rfl

/-- A restoration of a copy that is gone fails at once, and says so. -/
theorem outcome_restore_noCopy {k : Kept} (h : s.Lists d rs)
    (hfind : rs.find? (·.id = id) = some k.record) (hrestored : k.record.restored = false)
    (hthere : d.isThere k.copy = .ok false) :
    (s.restore id).outcome d = (.error (.noCopy (toString k.copy)), d) := by
  rw [outcome_restore_asking h hfind hrestored, Action.outcome_bind_ok (outcome_isThere hthere)]
  rfl

/-- If it cannot be told whether the copy is there, a restoration fails at once as well. -/
theorem outcome_restore_of_not_isThere {k : Kept} (h : s.Lists d rs)
    (hfind : rs.find? (·.id = id) = some k.record) (hrestored : k.record.restored = false)
    (hthere : d.isThere k.copy ≠ .ok true) : ∃ e, (s.restore id).outcome d = (.error e, d) := by
  rcases hasked : d.isThere k.copy with e | - | -
  · exact ⟨_, (outcome_restore_asking h hfind hrestored).trans
      (Action.outcome_bind_error (outcome_isThere_error hasked))⟩
  · exact ⟨_, outcome_restore_noCopy h hfind hrestored hasked⟩
  · exact absurd hasked hthere

/-! ## Sound stores -/

/-- The store is safe, and its manifest lists older records and then those of the ledger. -/
structure Sound (s : Store) (older : List Record) (st : State) : Prop where
  safe : s.Safe st.disk st.ids st.kept
  formed : ∀ r ∈ older, r.Formed
  used : ∀ r ∈ older, r.id ∈ st.ids
  apart : ∀ r ∈ older, ∀ k ∈ st.kept, r.id ≠ k.record.id
  listed : st.disk.files.entry? (s.manifestPlace st.disk)
    = some (.file (Manifest.written (Manifest.ofRecords (older ++ st.kept.map Kept.record))))

variable {older : List Record}

theorem formed_records {ids : List String} {kept : List Kept} (hformed : ∀ r ∈ older, r.Formed)
    (h : s.Consistent d ids kept) : ∀ r ∈ older ++ kept.map Kept.record, r.Formed :=
  List.forall_mem_append.2 ⟨hformed, List.forall_mem_map.2 fun k hk => (h.apart k hk).formed⟩

theorem Sound.lists {st : State} (h : s.Sound older st) :
    s.Lists st.disk (older ++ st.kept.map Kept.record) :=
  lists_of_entry h.safe.placed (formed_records h.formed h.safe.consistent) h.listed

/-- Once the manifest is written, it lists what was written. -/
theorem Safe.sound {ids : List String} {kept : List Kept} (h : s.Safe d ids kept)
    (hformed : ∀ r ∈ older, r.Formed) (hused : ∀ r ∈ older, r.id ∈ ids)
    (hapart : ∀ r ∈ older, ∀ k ∈ kept, r.id ≠ k.record.id) :
    s.Sound older
      ⟨d.after (s.writing d (Manifest.ofRecords (older ++ kept.map Kept.record))), ids, kept⟩ where
  safe := h.listed _
  formed := hformed
  used := hused
  apart := hapart
  listed := by
    rw [manifestPlace_of_current (Disk.current_after d _), entry?_writing, if_pos rfl]

section Events

variable {st : State} {k : Kept} {result : Except Fault Unit}

/-- The directories above a file are made, and nothing else is. -/
theorem Sound.made {made : Disk} {x : Except Files.Error Unit} (h : s.Sound older st) (hk : k ∈ st.kept)
    (hmade : (Action.ensureDirectories k.source.parent).outcome st.disk = (x, made)) :
    s.Sound older ⟨made, st.ids, st.kept⟩ where
  safe := h.safe.made hk hmade
  formed := h.formed
  used := h.used
  apart := h.apart
  listed := by
    obtain ⟨hwide, -⟩ := Action.widened_ensureDirectories hmade
    rw [manifestPlace_of_current hwide.current]
    exact hwide.entry_file.2 h.listed

/-- The copy of a file goes back to it, once the directory above the file is there, unless the
path of the file cannot be asked for or the file is locked. -/
theorem Safe.cases_copyBack {ids : List String} {kept : List Kept} (h : s.Safe d ids kept)
    (hk : k ∈ kept) (hparent : d.isDirectory k.source.parent = true)
    (hout : (onFiles (.copy k.copy k.source)).outcome d = (result, d')) :
    (∃ e, result = .error e ∧ d' = d ∧ ¬ k.source.Askable)
      ∨ (result = .error (.files (.refused .denied (toString k.source)))
        ∧ d' = d.after [.refuse k.source.parts] ∧ d.files.isLocked k.source.parts = true)
      ∨ result = .ok () ∧ d.locate k.source = .ok k.source.parts
        ∧ d.files.isLocked k.source.parts = false
        ∧ d' = d.after (Action.copied d k.copy k.source.parts k.bytes) := by
  have hwritable := h.writable k hk
  have hstored := h.stored k hk
  by_cases hask : k.source.Askable
  case neg =>
    -- the path of the file leads nowhere, and so does the one that the copy goes to
    have hnot : d.isDirectory k.source = false := by
      rw [← Bool.not_eq_true, Disk.isDirectory_iff]
      rintro ⟨q, hq, -⟩
      exact hask (Disk.locate_eq_ok_iff.1 hq).1
    rcases hcopied : (Action.copy k.copy k.source).outcome d with ⟨r, copied⟩
    rcases Action.cases_copy hcopied with ⟨e, rfl, rfl⟩ | ⟨_, _, -, hplace, -⟩
    · rw [outcome_onFiles_error hcopied] at hout
      cases hout
      exact .inl ⟨_, rfl, rfl, hask⟩
    · rw [Action.copyTarget, hnot, if_neg Bool.false_ne_true] at hplace
      exact absurd (Disk.locate_eq_ok_iff.1 hplace).1 hask
  have hlocate := hwritable.settled.locate_of_parent hask hwritable.parts_ne_nil hparent
  have hne : s.copyPlace d k.record.id k.copy ≠ k.source.parts := fun heq =>
    (h.consistent.apart k hk).own (heq ▸ copiesPlace_isPrefix_copyPlace)
  rcases hlocked : d.files.isLocked k.source.parts with - | -
  case true =>
    have hrefused := Action.outcome_copy_of_isLocked hstored.read hstored.located hlocate hne hlocked
    rw [outcome_onFiles_error hrefused] at hout
    cases hout
    exact .inr (.inl ⟨rfl, rfl, rfl⟩)
  have hcopied := Action.outcome_copy hstored.read hstored.located hlocate hne
    ⟨hwritable.notDirectory, hlocked⟩
  rw [outcome_onFiles_ok hcopied] at hout
  cases hout
  exact .inr (.inr ⟨rfl, hlocate, rfl, rfl⟩)

/-- What a restoration leaves that succeeds, once the directories above the file were made. -/
def restoredFrom (s : Store) (older : List Record) (kept : List Kept) (k : Kept) (made : Disk) :
    Disk :=
  (made.after (Action.copied made k.copy k.source.parts k.bytes)).after (s.writing made
    (Manifest.ofRecords (older ++ (kept.map (Kept.markedFor k.record.id)).map Kept.record)))

/-- A restoration makes the directories above the file. Then it writes the file and marks the
record; or it fails, because the path of the file cannot be asked for or the file is locked. -/
theorem Sound.cases_restore (h : s.Sound older st) (hk : k ∈ st.kept)
    (hrestored : k.record.restored = false)
    (hout : (s.restore k.record.id).outcome st.disk = (result, d')) :
    ∃ x made, (Action.ensureDirectories k.source.parent).outcome st.disk = (x, made)
      ∧ ((∃ e, result = .error e ∧ d' = made ∧ ¬ k.source.Askable)
        ∨ (result = .error (.files (.refused .denied (toString k.source)))
          ∧ d' = made.after [.refuse k.source.parts]
          ∧ st.disk.files.isLocked k.source.parts = true)
        ∨ result = .ok () ∧ made.locate k.source = .ok k.source.parts
          ∧ st.disk.files.isLocked k.source.parts = false
          ∧ d' = s.restoredFrom older st.kept k made) := by
  have holder : ∀ r ∈ older, r.id ≠ k.record.id := fun r hr => h.apart r hr k hk
  have hfind := find?_append_record holder h.safe.consistent.nodup hk
  have hstored := h.safe.stored k hk
  have hthere : st.disk.isThere k.copy = .ok true :=
    Disk.isThere_of_lookUp (Disk.lookUp_of_locate hstored.located hstored.entry)
  rw [outcome_restore h.lists hfind hrestored hthere] at hout
  -- the directories
  rcases Action.cases_bind hout with ⟨e, hmade, rfl⟩ | ⟨y, made, hmade, hout⟩
  · rcases cases_onFiles hmade with ⟨e', hmade, -⟩ | ⟨_, _, hno⟩
    · refine ⟨_, _, hmade, .inl ⟨e, rfl, rfl, fun hask => ?_⟩⟩
      have hmakes := (h.safe.writable k hk).exists_outcome_parent hask
      rw [hmade] at hmakes
      obtain ⟨d', hno⟩ := hmakes
      cases hno
    · cases hno
  rcases cases_onFiles hmade with ⟨_, _, hno⟩ | ⟨y, hmade, -⟩
  · cases hno
  obtain ⟨hwide, hparent⟩ := Action.widened_ensureDirectories hmade
  have hsound := h.made hk hmade
  refine ⟨_, made, hmade, ?_⟩
  rw [← hwide.isLocked]
  -- the copy
  rcases Action.cases_bind hout with ⟨e, hcopied, rfl⟩ | ⟨⟨⟩, copied, hcopied, hout⟩
  · rcases hsound.safe.cases_copyBack hk (hparent rfl) hcopied with
      ⟨e', herror, hsame, hask⟩ | ⟨herror, hsame, hlocked⟩ | ⟨hno, -⟩
    · exact .inl ⟨e, rfl, hsame, hask⟩
    · exact .inr (.inl ⟨by rw [Except.error.inj herror], hsame, hlocked⟩)
    · cases hno
  rcases hsound.safe.cases_copyBack hk (hparent rfl) hcopied with
    ⟨_, hno, -⟩ | ⟨hno, -⟩ | ⟨-, hlocate, hlocked, rfl⟩
  · cases hno
  · cases hno
  -- the mark
  have hrecopied := hsound.safe.recopied hk
  have hlists : s.Lists (made.after (Action.copied made k.copy k.source.parts k.bytes))
      (older ++ st.kept.map Kept.record) := by
    refine lists_of_entry hrecopied.placed (formed_records h.formed h.safe.consistent) ?_
    rw [manifestPlace_of_current (Disk.current_after made _), ← hsound.listed,
      Action.entry?_copied (hsound.safe.writable k hk).notDirectory,
      if_neg (hsound.safe.consistent.apart k hk).manifest.symm]
  rw [outcome_markRestored hlists, markFirstRecord_older holder,
    markFirstRecord_map _ h.safe.consistent.nodup,
    outcome_writeManifest hrecopied.placed hrecopied.manifest_ne_directory
      (FileSystem.accepts_of_none hrecopied.draft)] at hout
  cases hout
  exact .inr (.inr ⟨rfl, hlocate, hlocked, rfl⟩)

/-- After a restoration that succeeds, the entry is marked in the ledger and in the manifest. -/
theorem Sound.restoredFrom {made : Disk} (h : s.Sound older ⟨made, st.ids, st.kept⟩)
    (hk : k ∈ st.kept) : s.Sound older ⟨s.restoredFrom older st.kept k made, st.ids,
      st.kept.map (Kept.markedFor k.record.id)⟩ := by
  have hsound := ((h.safe.recopied hk).marked k.record.id).sound h.formed h.used fun r hr =>
    List.forall_mem_map.2 fun k' hk' => by
      rw [id_markedFor]
      exact h.apart r hr k' hk'
  rwa [writing_of_current (Disk.current_after made _)] at hsound

/-! ## What is left of a restoration -/

theorem entry?_restoredFrom {made : Disk} {kept : List Kept}
    (hfree : made.files.entry? k.source.parts ≠ some .directory) (q : Location) :
    (s.restoredFrom older kept k made).files.entry? q
      = if q = s.manifestPlace made then some (.file (Manifest.written (Manifest.ofRecords
          (older ++ (kept.map (Kept.markedFor k.record.id)).map Kept.record))))
        else if q = s.draftPlace made then none
        else if q = k.source.parts then some (.file k.bytes) else made.files.entry? q := by
  have hwritten := entry?_writing s (made.after (Action.copied made k.copy k.source.parts k.bytes))
    (Manifest.ofRecords (older ++ (kept.map (Kept.markedFor k.record.id)).map Kept.record)) q
  rw [Action.entry?_copied hfree] at hwritten
  exact hwritten

/-- No file is locked differently but the one that is restored and those of the manifest. -/
theorem lock?_restoredFrom {made : Disk} {kept : List Kept} {q : Location}
    (hsource : q ≠ k.source.parts) (hmanifest : q ≠ s.manifestPlace made)
    (hdraft : q ≠ s.draftPlace made) :
    (s.restoredFrom older kept k made).files.lock? q = made.files.lock? q := by
  rw [← manifestPlace_of_current (Disk.current_after made _)] at hmanifest
  rw [← draftPlace_of_current (Disk.current_after made _)] at hdraft
  rw [Store.restoredFrom, ← writing_of_current (Disk.current_after made _),
    lock?_writing hmanifest hdraft, Action.lock?_copied hsource]

/-- No file changes but the one that is restored and the manifest. -/
theorem Safe.bytesAt?_restoredFrom {made : Disk} {ids : List String} {kept : List Kept}
    {q : Location} (h : s.Safe made ids kept) (hk : k ∈ kept) (hsource : q ≠ k.source.parts)
    (hmanifest : q ≠ s.manifestPlace made) :
    (s.restoredFrom older kept k made).files.bytesAt? q = made.files.bytesAt? q := by
  have hentry : (s.restoredFrom older kept k made).files.entry? q = made.files.entry? q := by
    rw [entry?_restoredFrom (h.writable k hk).notDirectory, if_neg hmanifest, if_neg hsource]
    split
    · next hdraft => rw [hdraft, h.draft]
    · rfl
  rw [FileSystem.bytesAt?, FileSystem.bytesAt?, hentry]

theorem Safe.continues_restoredFrom {made : Disk} {ids : List String} {kept : List Kept}
    (h : s.Safe made ids kept) (hk : k ∈ kept) :
    Disk.Continues made (s.restoredFrom older kept k made) :=
  (Action.continues_copied (h.writable k hk).notDirectory).trans
    (continues_writing (h.recopied hk).manifest_ne_directory (h.recopied hk).draft_ne_directory)

/-- The file that is restored has the bytes of the copy. -/
theorem Safe.entry?_restoredFrom_self {made : Disk} {ids : List String} {kept : List Kept}
    (h : s.Safe made ids kept) (hk : k ∈ kept) :
    (s.restoredFrom older kept k made).files.entry? k.source.parts = some (.file k.bytes) := by
  have hapart := h.consistent.apart k hk
  have hdraft : k.source.parts ≠ s.draftPlace made := fun heq =>
    hapart.draft (heq ▸ List.prefix_rfl)
  rw [entry?_restoredFrom (h.writable k hk).notDirectory, if_neg hapart.manifest, if_neg hdraft,
    if_pos rfl]

/-! ## Events -/

theorem marked_of_restored (h : k.record.restored = true) : k.marked = k := by
  obtain ⟨⟨id, source, copy, time, reason, digest, removed, restored⟩, bytes⟩ := k
  cases h
  rfl

/-- Marking an entry that is marked changes nothing. -/
theorem map_markedFor_of_restored {kept : List Kept} (h : (kept.map fun k => k.record.id).Nodup)
    (hk : k ∈ kept) (hrestored : k.record.restored = true) :
    kept.map (Kept.markedFor k.record.id) = kept := by
  conv_rhs => rw [← List.map_id kept]
  refine List.map_congr_left fun k' hk' => ?_
  unfold Kept.markedFor
  split
  · next hid =>
    rw [List.inj_on_of_nodup_map h hk' hk hid, marked_of_restored hrestored]
    rfl
  · rfl

theorem Sound.outcome_restored (h : s.Sound older st) (hk : k ∈ st.kept)
    (hrestored : k.record.restored = true) :
    (s.restore k.record.id).outcome st.disk = (.ok (), st.disk) :=
  outcome_restore_restored h.lists
    (find?_append_record (fun r hr => h.apart r hr k hk) h.safe.consistent.nodup hk) hrestored

theorem Sound.outcome_unknown (h : s.Sound older st) (holder : ∀ r ∈ older, r.id ≠ id)
    (hid : ∀ k ∈ st.kept, k.record.id ≠ id) :
    (s.restore id).outcome st.disk = (.error (.unknownId id), st.disk) := by
  refine outcome_restore_unknown h.lists ?_
  rw [List.find?_append, List.find?_eq_none.2 fun r hr => by simpa using holder r hr,
    Option.none_or, find?_record_eq_none hid]

theorem Sound.next_others {left : Disk} (h : s.Sound older st) (he : s.Elsewhere st.kept st.disk left) :
    s.Sound older (s.next st (.others left)) where
  safe := h.safe.elsewhere he
  formed := h.formed
  used := h.used
  apart := h.apart
  listed := by
    show left.files.entry? (s.manifestPlace left) = _
    rw [manifestPlace_of_current he.current,
      he.inside (s.manifestPlace st.disk) (List.prefix_append ..)]
    exact h.listed

/-- A sound store stays sound when files are locked or let go of. -/
theorem Sound.alike (h : s.Sound older st) (ha : Disk.Alike st.disk d') :
    s.Sound older ⟨d', st.ids, st.kept⟩ := h.next_others (h.safe.elsewhere_alike ha)

theorem Sound.next_restore (h : s.Sound older st) (holder : ∀ r ∈ older, r.id ≠ id) :
    s.Sound older (s.next st (.restore id)) := by
  by_cases hid : ∀ k ∈ st.kept, k.record.id ≠ id
  · simp only [next, h.outcome_unknown holder hid]
    exact h
  push Not at hid
  obtain ⟨k, hk, rfl⟩ := hid
  rcases hrestored : k.record.restored with - | -
  · rcases hout : (s.restore k.record.id).outcome st.disk with ⟨result, d'⟩
    obtain ⟨x, made, hmade, ⟨e, rfl, rfl, -⟩ | ⟨rfl, rfl, -⟩ | ⟨rfl, -, -, rfl⟩⟩ :=
      h.cases_restore hk hrestored hout
    · simp only [next, hout]
      exact h.made hk hmade
    · simp only [next, hout]
      exact (h.made hk hmade).alike (Disk.alike_refuse made _)
    · simp only [next, hout]
      exact (h.made hk hmade).restoredFrom hk
  · simp only [next, h.outcome_restored hk hrestored,
      map_markedFor_of_restored h.safe.consistent.nodup hk hrestored]
    exact h

theorem Sound.next_backup {path : Path} {reason : String} {removed : List Value} {stamp : Stamp}
    (h : s.Sound older st) (hallowed : s.Allowed st (.backup path reason removed stamp)) :
    s.Sound older (s.next st (.backup path reason removed stamp)) := by
  obtain ⟨hpath, hremoved, hid, hnew, hother⟩ := hallowed
  rcases hout : (s.backup path reason removed stamp).outcome st.disk with ⟨result, d'⟩
  rcases cases_backup h.safe.placed hid hpath h.lists h.safe.manifest_ne_directory
    h.safe.draft hout with
    ⟨e, rfl, hmoments, -⟩ | ⟨bytes, rfl, hread, hname, hmoments, hlocated, rfl⟩
  all_goals have honly := hmoments.last
  · simp only [next, hout]
    refine ⟨h.safe.onlyBelow hid hnew honly, h.formed,
      fun r hr => List.mem_cons_of_mem _ (h.used r hr), h.apart, ?_⟩
    rw [manifestPlace_of_current honly.continues.current,
      honly.elsewhere _ (not_copiesPlace_isPrefix_manifest hid)]
    exact h.listed
  · have hcopied : (st.disk.after (s.copying st.disk stamp.id path bytes)).files.entry?
        (s.copyPlace st.disk stamp.id path) = some (.file bytes) := by
      rw [entry?_copying (h.safe.unused _ hid hnew _ copiesPlace_isPrefix_copyPlace), if_pos rfl]
    have hstored := @stored_entryOf s st.disk _ path reason removed stamp bytes
      h.safe.placed.proper hname (Disk.current_after st.disk _) hlocated hcopied
    have hjoins := h.safe.joins hpath hremoved hid hnew hother hread honly hstored
    -- no older record has the new id, because the ids of older records are used
    have hapart : ∀ r ∈ older, ∀ k ∈ st.kept ++ [s.entryOf st.disk path reason removed stamp bytes],
        r.id ≠ k.record.id := by
      refine fun r hr => List.forall_mem_append.2 ⟨h.apart r hr, fun k hk heq => ?_⟩
      rw [List.mem_singleton.1 hk] at heq
      have hid : r.id = stamp.id := heq
      exact hnew (hid ▸ h.used r hr)
    have hsound := ((h.safe.onlyBelow hid hnew honly).append hjoins).sound h.formed
      (fun r hr => List.mem_cons_of_mem _ (h.used r hr)) hapart
    rw [List.map_append, ← List.append_assoc, Disk.after_after] at hsound
    simp only [next, hout, hread]
    exact hsound

/-- The directory of a path that can be asked for can be asked for. -/
theorem askable_below {path : Path} {id : String} (hname : Path.IsName path.name)
    (hid : Path.IsName id) (h : (s.copyPath id path).Askable) : (s.below id).Askable := by
  have happend : toString (s.copyPath id path) = toString (s.below id) ++ ("/" ++ path.name) := by
    rw [copyPath, Path.toString_join_ofText _ hname, Path.entryPrefix, if_neg, String.append_assoc]
    rw [below, Path.parts_join_ofText hid]
    simp
  exact Path.askable_of_append happend h

/-- A file that can be read is backed up, if the path of its copy is not too long. -/
theorem Sound.backup_succeeds {path : Path} {reason : String} {removed : List Value} {stamp : Stamp}
    {bytes : Bytes} (h : s.Sound older st) (hid : Stamp.IsId stamp.id) (hnew : stamp.id ∉ st.ids)
    (hname : Path.IsName path.name) (hread : st.disk.read path = .ok bytes)
    (hsize : stamp.id.utf8ByteSize ≤ Disk.nameLimit) (hask : (s.copyPath stamp.id path).Askable) :
    ((s.backup path reason removed stamp).outcome st.disk).1 = .ok () := by
  obtain ⟨q, hq, hfile⟩ := Disk.read_eq_ok_iff.1 hread
  have hfree := h.safe.unused _ hid hnew
  have hparts : path.parts ≠ [] := fun hnil => hname.ne_empty (by rw [Path.name, hnil]; rfl)
  have hup := Disk.name_ne_up_of_locate hq (by rw [hfile]; simp) hparts
  have hlast : path.name.utf8ByteSize ≤ Disk.nameLimit :=
    Disk.size_of_follow (Disk.locate_eq_ok_iff.1 hq).2 _ (Path.name_mem_join hparts)
  -- the directory is made
  have hbelow : st.disk.locate (s.below stamp.id) = .ok (s.copiesPlace st.disk stamp.id) :=
    h.safe.placed.locate_below hid.isName (hid.ne (by decide)) hsize
      (askable_below hname hid.isName hask)
  obtain ⟨made, hmade⟩ := Action.exists_outcome_ensureDirectory hbelow fun bytes hfile' => by
    rw [hfree _ List.prefix_rfl] at hfile'
    cases hfile'
  rw [← Action.outcome_ensureDirectories fun text heq => by rw [hbelow] at heq; cases heq] at hmade
  rcases cases_ensureCopies h.safe.placed hid (outcome_onFiles_ok hmade) with
    ⟨_, hno, _⟩ | ⟨-, -, -, hprepares⟩
  · cases hno
  have hprepared : s.OnlyBelow stamp.id st.disk made := hprepares ▸ .preparing
  have hentry : ∀ q, made.files.entry? q
      = if q = s.copiesPlace st.disk stamp.id then some .directory else st.disk.files.entry? q :=
    hprepares ▸ entry?_preparing
  have hqnot : ¬ s.copiesPlace st.disk stamp.id <+: q := fun hbegin => by
    rw [hfree q hbegin] at hfile
    cases hfile
  have hqmade := Disk.locate_mono hprepared.continues hq
  have hread' : made.read path = .ok bytes :=
    Disk.read_eq_ok_iff.2 ⟨q, hqmade, (hprepared.elsewhere q hqnot).trans hfile⟩
  -- the copy is made
  have hcopy : made.locate (s.copyPath stamp.id path) = .ok (s.copyPlace st.disk stamp.id path) :=
    Disk.locate_join (Disk.locate_mono hprepared.continues hbelow)
      (by rw [hentry, if_pos rfl]) hname hup hlast hask
  have hnone : made.files.entry? (s.copyPlace st.disk stamp.id path) = none := by
    rw [hentry, if_neg (by simp [copyPlace]), hfree _ copiesPlace_isPrefix_copyPlace]
  have haccepts := FileSystem.accepts_of_none hnone
  have hcopied := Action.outcome_copy hread' hqmade hcopy
    (fun heq => hqnot (heq ▸ copiesPlace_isPrefix_copyPlace)) haccepts
  have honly : s.OnlyBelow stamp.id st.disk
      (made.after (Action.copied made path (s.copyPlace st.disk stamp.id path) bytes)) := by
    refine hprepared.trans (.copied ?_ haccepts.notDirectory)
    rw [copiesPlace_of_current hprepared.continues.current]
    exact copiesPlace_isPrefix_copyPlace
  -- the record is added
  have hsafe := h.safe.onlyBelow hid hnew honly
  have hresolve := resolve_of_locate hq honly.continues.current
  rw [← honly.continues.current] at hresolve
  rw [outcome_backup_of_isThere (Disk.isThere_of_lookUp (Disk.lookUp_of_locate hq hfile)),
    Action.outcome_bind_ok (outcome_onFiles_ok hmade),
    Action.outcome_bind_ok (outcome_onFiles_ok hcopied),
    outcome_recordCopy hsafe.placed (honly.lists h.safe.placed hid h.lists)
      hsafe.manifest_ne_directory hsafe.draft hresolve
      (Action.read_copied hcopy haccepts.notDirectory)]

/-- The store stays sound as long as it answers for what happens. -/
theorem Sound.next {event : Event} (h : s.Sound [] st) (hallowed : s.Allowed st event) :
    s.Sound [] (s.next st event) := by
  cases event with
  | backup path reason removed stamp => exact h.next_backup hallowed
  | restore id => exact h.next_restore fun _ hr => absurd hr List.not_mem_nil
  | others left => exact h.next_others hallowed

theorem Sound.after {events : List Event} (h : s.Sound [] st) (hallowed : s.AllAllowed st events) :
    s.Sound [] (s.after st events) := by
  induction events generalizing st with
  | nil => exact h
  | cons event events ih => exact ih (h.next hallowed.1) hallowed.2

end Events

end Store

end SuperForward.Backup
