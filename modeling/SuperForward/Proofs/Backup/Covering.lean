/-
  Which files a store answers for.

  A store answers for the files of a disk if each file outside of its directory has the bytes
  that it had, or was backed up when it had them and has not been restored. This stays true when
  a file is backed up and when one that was backed up is written anew. So each file is covered
  at every moment, and restoring the copies brings every file back.
-/
import SuperForward.Proofs.Backup.Opening

namespace SuperForward.Backup

open SuperForward.Files (Path Disk Action Location Entry FileSystem Change)
open SuperForward.Json (Value)
open SuperForward.Text (Bytes)

namespace Store

variable {s : Store} {was d d' : Disk} {older : List Record} {st : State} {k : Kept}

/-- Each file outside of the store has the bytes that it had, or the store lists a record of the
file, and the copy has these bytes. -/
def Covers (s : Store) (was now : Disk) : Prop :=
  ∀ q bytes, ¬ s.place was <+: q → was.files.bytesAt? q = some bytes →
    now.files.bytesAt? q = some bytes
      ∨ ∃ rs : List Record, s.records.outcome now = (.ok (.array (rs.map Record.toValue)), now)
        ∧ ∃ r ∈ rs, (Path.ofText r.sourcePath).parts = q ∧ now.read (.ofText r.copyPath) = .ok bytes

/-- Where files outside of the store are left alone, each of them has its bytes. -/
theorem SpareOthers.covers (h : s.SpareOthers was d) : s.Covers was d :=
  fun q _ hq hbytes => .inl ((h q hq).trans hbytes)

/-- What covers a file does not depend on locks. -/
theorem Covers.alike (h : s.Covers was d) (ha : Disk.Alike d d') : s.Covers was d' := by
  intro q bytes hq hbytes
  have hmanifest : s.manifestOf d' = s.manifestOf d := by rw [manifestOf, manifestOf, ha.read]
  rcases h q bytes hq hbytes with hsame | ⟨rs, hrecords, r, hr, hsource, hcopy⟩
  · exact .inl ((ha.bytesAt? q).trans hsame)
  · refine .inr ⟨rs, ?_, r, hr, hsource, (ha.read _).trans hcopy⟩
    rw [outcome_records] at hrecords ⊢
    rw [hmanifest, (Prod.mk.inj hrecords).1]

/-- From one disk to another one the files are covered all the while, and none outside of the
store has other bytes in the end. Only one of them may have been locked, or let go of. -/
structure Spares (s : Store) (was : Disk) (place : Location) (d d' : Disk) : Prop where
  covered : Disk.Throughout (s.Covers was) d d'
  bytes : ∀ q, ¬ s.place was <+: q → d'.files.bytesAt? q = d.files.bytesAt? q
  locks : ∀ q, ¬ s.place was <+: q → q ≠ place → (d.files.bytesAt? q).isSome →
    d'.files.lock? q = d.files.lock? q

theorem Spares.trans {d'' : Disk} {place : Location} (h : s.Spares was place d d')
    (h' : s.Spares was place d' d'') : s.Spares was place d d'' where
  covered := h.covered.trans h'.covered
  bytes q hq := (h'.bytes q hq).trans (h.bytes q hq)
  locks q hq hne hfile :=
    (h'.locks q hq hne (by rwa [h.bytes q hq])).trans (h.locks q hq hne hfile)

/-- The files of a disk have their bytes, or the store has a copy for each of the others that was
not restored yet. -/
structure Answers (s : Store) (older : List Record) (was : Disk) (st : State) : Prop where
  sound : s.Sound older st
  continues : Disk.Continues was st.disk
  outside : ∀ k ∈ st.kept, ¬ s.place was <+: k.source.parts
  asked : ∀ k ∈ st.kept, k.source.Askable
  bytes : ∀ k ∈ st.kept, was.files.bytesAt? k.source.parts = some k.bytes
  files : ∀ q, ¬ s.place was <+: q → st.disk.files.bytesAt? q = was.files.bytesAt? q
    ∨ ∃ k ∈ st.kept, k.record.restored = false ∧ k.source.parts = q

/-- A sound store without a ledger answers for the files that were left alone. -/
theorem Sound.answers {ids : List String} (h : s.Sound older ⟨d, ids, []⟩)
    (hcont : Disk.Continues was d) (hspare : s.SpareOthers was d) :
    s.Answers older was ⟨d, ids, []⟩ where
  sound := h
  continues := hcont
  outside := by simp
  asked := by simp
  bytes := by simp
  files q hq := .inl (hspare q hq)

namespace Answers

/-! ## Covered files -/

/-- The copies and the list of records are what the files are covered by; they may be looked at
on a disk that is on the way to the next state. -/
theorem covers_of (h : s.Answers older was st)
    (hlists : s.Lists d (older ++ st.kept.map Kept.record)) (hstored : ∀ k ∈ st.kept, s.Stored d k)
    (hsame : ∀ q, ¬ s.place was <+: q → d.files.bytesAt? q = st.disk.files.bytesAt? q) :
    s.Covers was d := by
  intro q bytes hq hbytes
  rcases h.files q hq with hfile | ⟨k, hk, -, rfl⟩
  · exact .inl (by rw [hsame q hq, hfile, hbytes])
  · have hkept := h.bytes k hk
    rw [hbytes] at hkept
    cases hkept
    exact .inr ⟨_, hlists.records, k.record,
      List.mem_append_right _ (List.mem_map.2 ⟨k, hk, rfl⟩), rfl, (hstored k hk).read⟩

theorem covers (h : s.Answers older was st) : s.Covers was st.disk :=
  h.covers_of h.sound.lists h.sound.safe.stored fun _ _ => rfl

section Backups

variable {path : Path} {reason : String} {removed : List Value} {stamp : Stamp} {id : String}

theorem not_isPrefix (h : s.Answers older was st) {q : Location} (hq : ¬ s.place was <+: q)
    {names : List String} : ¬ s.place st.disk ++ names <+: q := by
  rw [place_of_current h.continues.current]
  exact fun hbegin => hq ((List.prefix_append ..).trans hbegin)

theorem bytesAt?_onlyBelow (h : s.Answers older was st) (honly : s.OnlyBelow id st.disk d)
    {q : Location} (hq : ¬ s.place was <+: q) :
    d.files.bytesAt? q = st.disk.files.bytesAt? q := by
  rw [FileSystem.bytesAt?, FileSystem.bytesAt?, honly.elsewhere q (h.not_isPrefix hq)]

/-- While a copy is made, the files are covered as before. -/
theorem covers_onlyBelow (h : s.Answers older was st) (hid : Stamp.IsId id) (hnew : id ∉ st.ids)
    (honly : s.OnlyBelow id st.disk d) : s.Covers was d :=
  h.covers_of (honly.lists h.sound.safe.placed hid h.sound.lists)
    (h.sound.safe.onlyBelow hid hnew honly).stored fun _ hq => h.bytesAt?_onlyBelow honly hq

/-- When a new manifest has been written beside the old one, they still are. -/
theorem covers_drafted {ids : List String} (h : s.Answers older was st)
    (hsafe : s.Safe d ids st.kept) (hlists : s.Lists d (older ++ st.kept.map Kept.record))
    (hcurrent : d.current = st.disk.current)
    (hsame : ∀ q, ¬ s.place was <+: q → d.files.bytesAt? q = st.disk.files.bytesAt? q)
    (bytes : Bytes) : s.Covers was (d.after [.writeFile (s.draftPlace d) bytes]) := by
  have hcont : Disk.Continues d (d.after [.writeFile (s.draftPlace d) bytes]) :=
    Disk.continues_writeFile hsafe.draft_ne_directory
  have hother : ∀ q, q ≠ s.draftPlace d →
      (d.after [.writeFile (s.draftPlace d) bytes]).files.entry? q = d.files.entry? q :=
    fun q hq => by rw [Disk.entry?_writeFile hsafe.draft_ne_directory, if_neg hq]
  refine h.covers_of ?_ (fun k hk => (hsafe.stored k hk).mono hcont ?_) fun q hq => ?_
  · rw [Lists, manifestOf_congr hsafe.placed hcont (hother _ (manifestPlace_ne_draftPlace s d))]
    exact hlists
  · rw [hother _ (by simp [copyPlace, copiesPlace, draftPlace]), (hsafe.stored k hk).entry]
  · rw [← hsame q hq, FileSystem.bytesAt?, FileSystem.bytesAt?, hother]
    rintro rfl
    rw [draftPlace_of_current hcurrent] at hq
    exact h.not_isPrefix hq List.prefix_rfl

/-! ## Backups -/

/-- A backup writes no file outside of the store. -/
theorem spares_backup {result : Except Fault Unit} (h : s.Answers older was st)
    (hpath : path.Proper) (hid : Stamp.IsId stamp.id)
    (hbackup : (s.backup path reason removed stamp).outcome st.disk = (result, d'))
    {q : Location} (hq : ¬ s.place was <+: q) :
    d'.files.bytesAt? q = st.disk.files.bytesAt? q := by
  rcases cases_backup h.sound.safe.placed hid hpath h.sound.lists
    h.sound.safe.manifest_ne_directory h.sound.safe.draft hbackup with
    ⟨e, -, hmoments, -⟩ | ⟨bytes, -, -, -, hmoments, -, rfl⟩
  · exact h.bytesAt?_onlyBelow hmoments.last hq
  · rw [← h.bytesAt?_onlyBelow hmoments.last hq, ← Disk.after_after,
      ← writing_of_current (Disk.current_after st.disk _), FileSystem.bytesAt?,
      FileSystem.bytesAt?, entry?_writing, if_neg, if_neg]
    · rintro rfl
      exact h.not_isPrefix hq List.prefix_rfl
    · rintro rfl
      exact h.not_isPrefix hq List.prefix_rfl

/-- A backup locks no file outside of the store, and lets go of none. -/
theorem lock?_backup {result : Except Fault Unit} (h : s.Answers older was st)
    (hpath : path.Proper) (hid : Stamp.IsId stamp.id)
    (hbackup : (s.backup path reason removed stamp).outcome st.disk = (result, d'))
    {q : Location} (hq : ¬ s.place was <+: q) : d'.files.lock? q = st.disk.files.lock? q := by
  rcases cases_backup h.sound.safe.placed hid hpath h.sound.lists
    h.sound.safe.manifest_ne_directory h.sound.safe.draft hbackup with
    ⟨e, -, hmoments, -⟩ | ⟨bytes, -, -, -, hmoments, -, rfl⟩
  · exact hmoments.last.locks q (h.not_isPrefix hq)
  · rw [← hmoments.last.locks q (h.not_isPrefix hq), ← Disk.after_after,
      ← writing_of_current (Disk.current_after st.disk _), lock?_writing]
    · rintro rfl
      exact h.not_isPrefix hq List.prefix_rfl
    · rintro rfl
      exact h.not_isPrefix hq List.prefix_rfl

/-- A file that has its bytes is backed up: the store answers for it, too. -/
theorem next_backup (h : s.Answers older was st)
    (hallowed : s.Allowed st (.backup path reason removed stamp))
    (hout : ¬ s.place was <+: (path.resolve was.current).parts)
    (hask : (path.resolve was.current).Askable)
    (hnot : ∀ k ∈ st.kept, k.source.parts ≠ (path.resolve was.current).parts) :
    s.Answers older was (s.next st (.backup path reason removed stamp)) := by
  have hsound := h.sound.next_backup hallowed
  obtain ⟨hpath, -, hid, hnew, -⟩ := hallowed
  rcases hbackup : (s.backup path reason removed stamp).outcome st.disk with ⟨result, d'⟩
  have hspare := fun q hq => h.spares_backup hpath hid hbackup (q := q) hq
  rcases cases_backup h.sound.safe.placed hid hpath h.sound.lists
    h.sound.safe.manifest_ne_directory h.sound.safe.draft hbackup with
    ⟨e, rfl, hmoments, -⟩ | ⟨bytes, rfl, hread, -, hmoments, -, rfl⟩
  -- a backup that fails leaves the ledger as it was
  · simp only [next, hbackup] at hsound ⊢
    exact {
      sound := hsound
      continues := h.continues.trans hmoments.last.continues
      outside := h.outside
      asked := h.asked
      bytes := h.bytes
      files := fun q hq => by
        rw [hspare q hq]
        exact h.files q hq }
  · have hsource := @source_entryOf s st.disk path reason removed stamp bytes hpath
      h.sound.safe.current
    rw [h.continues.current] at hsource
    -- no entry is for this file yet, so it still has the bytes that it had at the start
    have hkept : was.files.bytesAt? (path.resolve was.current).parts = some bytes := by
      obtain ⟨q, hq, hfile⟩ := Disk.read_eq_ok_iff.1 hread
      have hplace := Disk.eq_of_locate hq
      rw [h.continues.current] at hplace
      subst hplace
      rcases h.files _ hout with hsame | ⟨k, hk, -, heq⟩
      · rw [← hsame, FileSystem.bytesAt?, hfile]
      · exact absurd heq (hnot k hk)
    simp only [next, hbackup, hread] at hsound ⊢
    have hsafe := h.sound.safe.onlyBelow hid hnew hmoments.last
    refine {
      sound := hsound
      continues := ?_
      outside := List.forall_mem_append.2 ⟨h.outside, fun k hk => ?_⟩
      asked := List.forall_mem_append.2 ⟨h.asked, fun k hk => ?_⟩
      bytes := List.forall_mem_append.2 ⟨h.bytes, fun k hk => ?_⟩
      files := fun q hq => ?_ }
    · rw [← Disk.after_after, ← writing_of_current (Disk.current_after st.disk _)]
      exact (h.continues.trans hmoments.last.continues).trans
        (continues_writing hsafe.manifest_ne_directory hsafe.draft_ne_directory)
    · rw [List.mem_singleton.1 hk]
      exact hsource ▸ hout
    · rw [List.mem_singleton.1 hk]
      exact hsource ▸ hask
    · rw [List.mem_singleton.1 hk]
      exact hsource ▸ hkept
    · rw [hspare q hq]
      rcases h.files q hq with hsame | ⟨k, hk, hunrestored, rfl⟩
      · exact .inl hsame
      · exact .inr ⟨k, List.mem_append_left _ hk, hunrestored, rfl⟩

/-- At every moment of a backup the files are covered. -/
theorem throughout_backup {result : Except Fault Unit} (h : s.Answers older was st)
    (hallowed : s.Allowed st (.backup path reason removed stamp))
    (hnext : s.Answers older was (s.next st (.backup path reason removed stamp)))
    (hbackup : (s.backup path reason removed stamp).outcome st.disk = (result, d')) :
    Disk.Throughout (s.Covers was) st.disk d' := by
  obtain ⟨hpath, -, hid, hnew, -⟩ := hallowed
  have hlast : s.Covers was d' := by
    have hcovers := hnext.covers
    simp only [next, hbackup] at hcovers
    exact hcovers
  rcases cases_backup h.sound.safe.placed hid hpath h.sound.lists
    h.sound.safe.manifest_ne_directory h.sound.safe.draft hbackup with
    ⟨e, -, hmoments, -⟩ | ⟨bytes, -, -, -, hmoments, -, rfl⟩
  · exact hmoments.mono fun _ => h.covers_onlyBelow hid hnew
  · have hcopying := hmoments.mono fun _ => h.covers_onlyBelow hid hnew
    rw [← Disk.after_after, ← writing_of_current (Disk.current_after st.disk _)] at hlast ⊢
    rw [writing, ← List.singleton_append, ← Disk.after_after] at hlast ⊢
    have honly := hmoments.last
    have hdrafted := h.covers_drafted (h.sound.safe.onlyBelow hid hnew honly)
      (honly.lists h.sound.safe.placed hid h.sound.lists) honly.continues.current
      (fun _ hq => h.bytesAt?_onlyBelow honly hq) (Manifest.written
        (Manifest.ofRecords (older ++ st.kept.map Kept.record
          ++ [s.recordOf st.disk path reason removed stamp bytes])))
    exact (hcopying.trans (.change hcopying.last hdrafted)).trans (.change hdrafted hlast)

end Backups

/-! ## Files written anew -/

/-- A file that was backed up is written anew. -/
theorem rewrite (h : s.Answers older was st) (hk : k ∈ st.kept)
    (hrestored : k.record.restored = false) (bytes : Bytes) :
    s.Answers older was
      (s.next st (.others (st.disk.after [.writeFile k.source.parts bytes]))) := by
  have hwritable := h.sound.safe.writable k hk
  have hput : s.Elsewhere st.kept st.disk (st.disk.after [.writeFile k.source.parts bytes]) :=
    h.sound.safe.elsewhere_put hwritable.notDirectory
      (by
        rw [place_of_current h.continues.current]
        exact h.outside k hk)
      (h.sound.safe.consistent.level k hk) rfl rfl
  exact {
    sound := h.sound.next_others hput
    continues := h.continues.trans (Disk.continues_writeFile hwritable.notDirectory)
    outside := h.outside
    asked := h.asked
    bytes := h.bytes
    files := fun q hq => by
      by_cases heq : k.source.parts = q
      · exact .inr ⟨k, hk, hrestored, heq⟩
      · rw [next, FileSystem.bytesAt?, Disk.entry?_writeFile hwritable.notDirectory,
          if_neg (Ne.symm heq)]
        exact h.files q hq }

/-! ## Restorations -/

/-- Nothing is lost when a file is locked or let go of. -/
theorem alike (h : s.Answers older was st) (ha : Disk.Alike st.disk d') :
    s.Answers older was ⟨d', st.ids, st.kept⟩ where
  sound := h.sound.alike ha
  continues := h.continues.trans ha.continues
  outside := h.outside
  asked := h.asked
  bytes := h.bytes
  files q hq := by
    rw [ha.bytesAt?]
    exact h.files q hq

/-- The directories above a file are made. -/
theorem made {x : Except Files.Error Unit} {made : Disk} (h : s.Answers older was st)
    (hk : k ∈ st.kept)
    (hmade : (Action.ensureDirectories k.source.parent).outcome st.disk = (x, made)) :
    s.Answers older was ⟨made, st.ids, st.kept⟩ where
  sound := h.sound.made hk hmade
  continues := h.continues.trans (Action.widened_ensureDirectories hmade).1.continues
  outside := h.outside
  asked := h.asked
  bytes := h.bytes
  files q hq := by
    rw [(Action.widened_ensureDirectories hmade).1.bytesAt?]
    exact h.files q hq

/-- A file gets the bytes of its copy, and the entry is marked. -/
theorem restoredFrom {made : Disk} (h : s.Answers older was ⟨made, st.ids, st.kept⟩)
    (hk : k ∈ st.kept) : s.Answers older was
      ⟨s.restoredFrom older st.kept k made, st.ids, st.kept.map (Kept.markedFor k.record.id)⟩ where
  sound := h.sound.restoredFrom hk
  continues := h.continues.trans (h.sound.safe.continues_restoredFrom hk)
  outside := List.forall_mem_map.2 fun k' hk' => by
    rw [source_markedFor]
    exact h.outside k' hk'
  asked := List.forall_mem_map.2 fun k' hk' => by
    rw [source_markedFor]
    exact h.asked k' hk'
  bytes := List.forall_mem_map.2 fun k' hk' => by
    rw [source_markedFor, bytes_markedFor]
    exact h.bytes k' hk'
  files q hq := by
    -- the file itself has its bytes again, and no place outside of the store is the manifest's
    by_cases heq : q = k.source.parts
    · subst heq
      exact .inl (by
        rw [h.bytes k hk, FileSystem.bytesAt?, h.sound.safe.entry?_restoredFrom_self hk])
    have hmanifest : q ≠ s.manifestPlace made := by
      rintro rfl
      exact h.not_isPrefix hq List.prefix_rfl
    rw [h.sound.safe.bytesAt?_restoredFrom hk heq hmanifest]
    rcases h.files q hq with hsame | ⟨k', hk', hunrestored, rfl⟩
    · exact .inl hsame
    refine .inr ⟨k', List.mem_map.2 ⟨k', hk', if_neg fun hid => heq ?_⟩, hunrestored, rfl⟩
    rw [List.inj_on_of_nodup_map h.sound.safe.consistent.nodup hk' hk hid]

/-- While directories are made, the files are covered as before. -/
theorem covers_widened (h : s.Answers older was st) (hwide : Action.Widened st.disk d) :
    s.Covers was d := by
  refine h.covers_of ?_ (fun k hk => (h.sound.safe.stored k hk).mono hwide.continues
    (hwide.entry_file.2 (h.sound.safe.stored k hk).entry)) fun q _ => hwide.bytesAt? q
  refine lists_of_entry (h.sound.safe.placed.mono hwide.continues)
    (formed_records h.sound.formed h.sound.safe.consistent) ?_
  rw [manifestPlace_of_current hwide.current]
  exact hwide.entry_file.2 h.sound.listed

theorem spares_widened {place : Location} (h : s.Answers older was st)
    (hwide : Action.Widened st.disk d) : s.Spares was place st.disk d where
  covered := hwide.throughout.mono fun _ => h.covers_widened
  bytes q _ := hwide.bytesAt? q
  locks _ _ _ hfile := hwide.lock? hfile

theorem spares_refuse (h : s.Answers older was st) (place : Location) :
    s.Spares was place st.disk (st.disk.after [.refuse place]) where
  covered := .change h.covers (h.covers.alike (Disk.alike_refuse st.disk place))
  bytes q _ := (Disk.alike_refuse st.disk place).bytesAt? q
  locks _ _ hne _ := Change.lock?_applyAll (by simpa [Change.lockPlaces] using hne)

/-- A copy is restored to a file that has its bytes, and the entry is marked. -/
theorem spares_restoredFrom {made : Disk} (h : s.Answers older was ⟨made, st.ids, st.kept⟩)
    (hk : k ∈ st.kept)
    (hsame : made.files.bytesAt? k.source.parts = was.files.bytesAt? k.source.parts) :
    s.Spares was k.source.parts made (s.restoredFrom older st.kept k made) where
  covered := by
    have hnot := (h.sound.safe.writable k hk).notDirectory
    have hfile : made.files.entry? k.source.parts = some (.file k.bytes) :=
      FileSystem.bytesAt?_eq_some_iff.1 (hsame.trans (h.bytes k hk))
    -- the copy: every file has the bytes that it had before
    have hwritten : Disk.Alike made (made.after [.writeFile k.source.parts k.bytes]) := by
      refine ⟨rfl, fun q => (Disk.entry?_writeFile hnot q).trans ?_⟩
      split
      · next heq => rw [heq, hfile]
      · rfl
    have hcopied := hwritten.trans (Action.alike_copied made k.copy k.source.parts k.bytes)
    have hcopying := Action.throughout_copied h.covers (h.covers.alike hwritten)
      (h.covers.alike hcopied)
    -- the mark
    have hrecopied := h.alike hcopied
    have hdrafted := hrecopied.covers_drafted hrecopied.sound.safe hrecopied.sound.lists rfl
      (fun _ _ => rfl) (Manifest.written (Manifest.ofRecords
        (older ++ (st.kept.map (Kept.markedFor k.record.id)).map Kept.record)))
    have hlast := (h.restoredFrom hk).covers
    unfold Store.restoredFrom at hlast ⊢
    rw [← writing_of_current (Disk.current_after made _), writing, ← List.singleton_append,
      ← Disk.after_after] at hlast ⊢
    exact (hcopying.trans (.change hcopying.last hdrafted)).trans (.change hdrafted hlast)
  bytes q hq := by
    by_cases heq : q = k.source.parts
    · rw [heq, hsame, h.bytes k hk, FileSystem.bytesAt?,
        h.sound.safe.entry?_restoredFrom_self hk]
    · refine h.sound.safe.bytesAt?_restoredFrom hk heq ?_
      rintro rfl
      exact h.not_isPrefix hq List.prefix_rfl
  locks q hq hne _ := by
    refine lock?_restoredFrom hne ?_ ?_
    · rintro rfl
      exact h.not_isPrefix hq List.prefix_rfl
    · rintro rfl
      exact h.not_isPrefix hq List.prefix_rfl

/-- A file that has its bytes is restored, unless it is locked. It has them all the while. -/
theorem cases_restore_same {result : Except Fault Unit} (h : s.Answers older was st)
    (hk : k ∈ st.kept) (hrestored : k.record.restored = false)
    (hsame : st.disk.files.bytesAt? k.source.parts = was.files.bytesAt? k.source.parts)
    (hout : (s.restore k.record.id).outcome st.disk = (result, d')) :
    ∃ kept, s.Answers older was ⟨d', st.ids, kept⟩ ∧ s.Spares was k.source.parts st.disk d'
      ∧ (result = .ok () ∧ kept = st.kept.map (Kept.markedFor k.record.id)
          ∧ st.disk.files.isLocked k.source.parts = false
        ∨ result = .error (.files (.refused .denied (toString k.source))) ∧ kept = st.kept
          ∧ st.disk.files.isLocked k.source.parts = true) := by
  obtain ⟨x, made, hmade, hcases⟩ := h.sound.cases_restore hk hrestored hout
  have hanswers := h.made hk hmade
  have hwide := (Action.widened_ensureDirectories hmade).1
  have hmaking : s.Spares was k.source.parts st.disk made := h.spares_widened hwide
  rcases hcases with ⟨e, -, -, hask⟩ | ⟨rfl, rfl, hlocked⟩ | ⟨rfl, -, hfree, rfl⟩
  · exact absurd (h.asked k hk) hask
  · exact ⟨_, hanswers.alike (Disk.alike_refuse made _), hmaking.trans (hanswers.spares_refuse _),
      .inr ⟨rfl, rfl, hlocked⟩⟩
  · exact ⟨_, hanswers.restoredFrom hk,
      hmaking.trans (hanswers.spares_restoredFrom hk ((hwide.bytesAt? _).trans hsame)),
      .inl ⟨rfl, rfl, hfree⟩⟩

end Answers

/-- No file was backed up twice. The files of some ids are not locked, as long as their copies
were not restored, and those of the other ids have the bytes that they had. -/
structure Restorable (was : Disk) (free : List String) (st : State) : Prop where
  distinct : ∀ k ∈ st.kept, ∀ k' ∈ st.kept, k.source.parts = k'.source.parts → k = k'
  unlocked : ∀ k ∈ st.kept, k.record.id ∈ free → k.record.restored = false →
    st.disk.files.isLocked k.source.parts = false
  same : ∀ k ∈ st.kept, k.record.id ∉ free →
    st.disk.files.bytesAt? k.source.parts = was.files.bytesAt? k.source.parts

namespace Restorable

variable {free : List String}

/-- The file of another id is locked, or let go of. -/
theorem refuse (h : Restorable was free st) (hk : k ∈ st.kept) (hnot : k.record.id ∉ free) :
    Restorable was free ⟨st.disk.after [.refuse k.source.parts], st.ids, st.kept⟩ where
  distinct := h.distinct
  unlocked k' hk' hfree hunrestored := by
    have hne : k'.source.parts ≠ k.source.parts := fun heq => by
      rw [h.distinct k' hk' k hk heq] at hfree
      exact hnot hfree
    have hlock : (st.disk.after [.refuse k.source.parts]).files.lock? k'.source.parts
        = st.disk.files.lock? k'.source.parts :=
      Change.lock?_applyAll (by simpa [Change.lockPlaces] using hne)
    rw [FileSystem.isLocked, (Disk.alike_refuse st.disk k.source.parts).bytesAt?, hlock]
    exact h.unlocked k' hk' hfree hunrestored
  same k' hk' hother := by
    rw [(Disk.alike_refuse st.disk k.source.parts).bytesAt?]
    exact h.same k' hk' hother

theorem widened (h : Restorable was free st) (hwide : Action.Widened st.disk d) :
    Restorable was free ⟨d, st.ids, st.kept⟩ where
  distinct := h.distinct
  unlocked k hk hfree hunrestored := by
    rw [hwide.isLocked]
    exact h.unlocked k hk hfree hunrestored
  same k hk hother := by
    rw [hwide.bytesAt?]
    exact h.same k hk hother

/-- After a restoration the file has its bytes, and the others are what they were. -/
theorem restoredFrom {made : Disk} (h : Restorable was free ⟨made, st.ids, st.kept⟩)
    (hanswers : s.Answers older was ⟨made, st.ids, st.kept⟩) (hk : k ∈ st.kept) :
    Restorable was free
      ⟨s.restoredFrom older st.kept k made, st.ids, st.kept.map (Kept.markedFor k.record.id)⟩ where
  distinct := List.forall_mem_map.2 fun k₁ hk₁ => List.forall_mem_map.2 fun k₂ hk₂ heq => by
    rw [source_markedFor, source_markedFor] at heq
    rw [h.distinct k₁ hk₁ k₂ hk₂ heq]
  unlocked := List.forall_mem_map.2 fun k' hk' hfree hunrestored => by
    rw [id_markedFor] at hfree
    -- the entry is not marked, so it is another one
    have hid : k'.record.id ≠ k.record.id := by
      intro hid
      rw [Kept.markedFor, if_pos hid] at hunrestored
      cases hunrestored
    rw [Kept.markedFor, if_neg hid] at hunrestored
    have hne : k'.source.parts ≠ k.source.parts := fun heq =>
      hid (by rw [h.distinct k' hk' k hk heq])
    have hapart := hanswers.sound.safe.consistent.apart k' hk'
    have hdraft : k'.source.parts ≠ s.draftPlace made := fun heq =>
      hapart.draft (heq ▸ List.prefix_rfl)
    rw [source_markedFor, FileSystem.isLocked,
      hanswers.sound.safe.bytesAt?_restoredFrom hk hne hapart.manifest,
      lock?_restoredFrom hne hapart.manifest hdraft]
    exact h.unlocked k' hk' hfree hunrestored
  same := List.forall_mem_map.2 fun k' hk' hother => by
    rw [id_markedFor] at hother
    rw [source_markedFor]
    by_cases heq : k'.source.parts = k.source.parts
    · rw [heq, hanswers.bytes k hk, FileSystem.bytesAt?,
        hanswers.sound.safe.entry?_restoredFrom_self hk]
    · rw [hanswers.sound.safe.bytesAt?_restoredFrom hk heq
        (hanswers.sound.safe.consistent.apart k' hk').manifest]
      exact h.same k' hk' hother

end Restorable

/-- Restores copies, one after the other, and gives the ids of those that could not be. -/
def restoreAll (s : Store) : (ids : List String) → Disk → List String × Disk
  | [], d => ([], d)
  | id :: ids, d =>
    let (result, between) := (s.restore id).outcome d
    let (failed, left) := s.restoreAll ids between
    (match result with
      | .ok () => failed
      | .error _ => id :: failed, left)

namespace Answers

variable {free : List String}

/-- A copy is restored and its entry is marked; or its file is locked, and has its bytes. -/
theorem cases_restore {result : Except Fault Unit} (h : s.Answers older was st)
    (hfree : Restorable was free st) (hk : k ∈ st.kept)
    (hout : (s.restore k.record.id).outcome st.disk = (result, d')) :
    ∃ kept, s.Answers older was ⟨d', st.ids, kept⟩ ∧ Restorable was free ⟨d', st.ids, kept⟩
      ∧ (result = .ok () ∧ kept = st.kept.map (Kept.markedFor k.record.id)
        ∨ (∃ e, result = .error e) ∧ k.record.id ∉ free ∧ kept = st.kept) := by
  rcases hrestored : k.record.restored with - | -
  case true =>
    -- an entry that is marked already is passed over: disk and ledger stay as they are
    rw [h.sound.outcome_restored hk hrestored] at hout
    cases hout
    exact ⟨st.kept, h, hfree, .inl ⟨rfl,
      (map_markedFor_of_restored h.sound.safe.consistent.nodup hk hrestored).symm⟩⟩
  obtain ⟨x, made, hmade, hcases⟩ := h.sound.cases_restore hk hrestored hout
  have hanswers := h.made hk hmade
  have hwide := hfree.widened (Action.widened_ensureDirectories hmade).1
  rcases hcases with ⟨e, -, -, hask⟩ | ⟨rfl, rfl, hlocked⟩ | ⟨rfl, -, -, rfl⟩
  · exact absurd (h.asked k hk) hask
  · have hnot : k.record.id ∉ free := fun hmem => by
      rw [hfree.unlocked k hk hmem hrestored] at hlocked
      cases hlocked
    exact ⟨st.kept, hanswers.alike (Disk.alike_refuse made _), hwide.refuse hk hnot,
      .inr ⟨⟨_, rfl⟩, hnot, rfl⟩⟩
  · exact ⟨_, hanswers.restoredFrom hk, hwide.restoredFrom hanswers hk, .inl ⟨rfl, rfl⟩⟩

/-- Copies are restored in any order. Those of free ids all are, and their entries are marked. -/
theorem exists_restoreAll {ids : List String} (h : s.Answers older was st)
    (hfree : Restorable was free st) (hids : ∀ id ∈ ids, ∃ k ∈ st.kept, k.record.id = id) :
    ∃ (failed : List String) (d' : Disk) (marked : List String),
      s.restoreAll ids st.disk = (failed, d')
      ∧ (∀ id ∈ failed, id ∈ ids ∧ id ∉ free) ∧ (∀ id ∈ ids, id ∈ free → id ∈ marked)
      ∧ s.Answers older was
        ⟨d', st.ids, st.kept.map fun k => if k.record.id ∈ marked then k.marked else k⟩
      ∧ Restorable was free
        ⟨d', st.ids, st.kept.map fun k => if k.record.id ∈ marked then k.marked else k⟩ := by
  induction ids generalizing st with
  | nil => exact ⟨[], st.disk, [], rfl, by simp, by simp, by simpa using h, by simpa using hfree⟩
  | cons id ids ih =>
    obtain ⟨⟨k, hk, rfl⟩, hrest⟩ := List.forall_mem_cons.1 hids
    rcases hout : (s.restore k.record.id).outcome st.disk with ⟨result, between⟩
    obtain ⟨kept, hanswers, hwide, ⟨rfl, rfl⟩ | ⟨⟨e, rfl⟩, hnot, rfl⟩⟩ :=
      h.cases_restore hfree hk hout
    · obtain ⟨failed, d', marked, hall, hfailed, hmarked, hleft, hleft'⟩ :=
        ih hanswers hwide fun id' hid' => by
          obtain ⟨k', hk', rfl⟩ := hrest id' hid'
          exact ⟨_, List.mem_map.2 ⟨k', hk', rfl⟩, id_markedFor ..⟩
      -- marking the first id and then those of the rest is marking all of them
      have hmarks : (st.kept.map (Kept.markedFor k.record.id)).map
            (fun k' => if k'.record.id ∈ marked then k'.marked else k')
          = st.kept.map fun k' =>
            if k'.record.id ∈ k.record.id :: marked then k'.marked else k' := by
        rw [List.map_map]
        refine List.map_congr_left fun k' _ => ?_
        simp only [Function.comp_apply, id_markedFor, List.mem_cons]
        unfold Kept.markedFor
        by_cases hid : k'.record.id = k.record.id <;> by_cases hmem : k'.record.id ∈ marked <;>
          simp [hid, hmem, Kept.marked, Record.marked]
      rw [hmarks] at hleft hleft'
      refine ⟨failed, d', k.record.id :: marked, ?_,
        fun id' hid' => (hfailed id' hid').imp_left (List.mem_cons_of_mem _),
        fun id' hid' hmem => ?_, hleft, hleft'⟩
      · simp only [restoreAll, hout, hall]
      · rcases List.mem_cons.1 hid' with rfl | hid'
        · exact List.mem_cons_self ..
        · exact List.mem_cons_of_mem _ (hmarked id' hid' hmem)
    · obtain ⟨failed, d', marked, hall, hfailed, hmarked, hleft, hleft'⟩ := ih hanswers hwide hrest
      refine ⟨k.record.id :: failed, d', marked, ?_,
        List.forall_mem_cons.2 ⟨⟨List.mem_cons_self .., hnot⟩,
          fun id' hid' => (hfailed id' hid').imp_left (List.mem_cons_of_mem _)⟩,
        fun id' hid' hmem => ?_, hleft, hleft'⟩
      · simp only [restoreAll, hout, hall]
      · rcases List.mem_cons.1 hid' with rfl | hid'
        · exact absurd hmem hnot
        · exact hmarked id' hid' hmem

/-- When all copies of the ledger are restored, as far as they can be, every file outside of the
store has its bytes again. -/
theorem restoreAll_spares {ids : List String} (h : s.Answers older was st)
    (hfree : Restorable was free st) (hids : ∀ id, id ∈ ids ↔ ∃ k ∈ st.kept, k.record.id = id) :
    ∃ failed d', s.restoreAll ids st.disk = (failed, d') ∧ (∀ id ∈ failed, id ∈ ids ∧ id ∉ free)
      ∧ s.SpareOthers was d' := by
  obtain ⟨failed, d', marked, hout, hfailed, hmarked, hanswers, hleft⟩ :=
    h.exists_restoreAll hfree fun id => (hids id).1
  refine ⟨failed, d', hout, hfailed, fun q hq => ?_⟩
  rcases hanswers.files q hq with hsame | ⟨k', hk', hunrestored, rfl⟩
  · exact hsame
  refine hleft.same k' hk' fun hmem => ?_
  -- an entry of a free id is marked by now
  obtain ⟨k, hk, rfl⟩ := List.mem_map.1 hk'
  by_cases hin : k.record.id ∈ marked
  · rw [if_pos hin] at hunrestored
    cases hunrestored
  · rw [if_neg hin] at hmem
    exact hin (hmarked _ ((hids _).2 ⟨k, hk, rfl⟩) hmem)

end Answers

end Store

end SuperForward.Backup
