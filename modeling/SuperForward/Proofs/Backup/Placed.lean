/-
  Where a store keeps its files, and how it writes its manifest.

  A store is placed if its directory is there and the path of its manifest can be asked for.
  Writing the manifest then makes two changes: the draft is written, and it takes the place of
  the manifest.
-/
import SuperForward.Proofs.Backup.Listing
import SuperForward.Proofs.Files.Actions

namespace SuperForward.Backup

open SuperForward.Files (Path Disk Action Location Entry FileSystem Change)
open SuperForward.Json (Value)
open SuperForward.Text (Bytes)

namespace Store

/-! ## Places -/

/-- The location of the store's directory. -/
def place (s : Store) (d : Disk) : Location := (s.directory.resolve d.current).parts

/-- The location of the manifest. -/
def manifestPlace (s : Store) (d : Disk) : Location := s.place d ++ ["manifest.json"]

/-- The location to which a new manifest is written first. -/
def draftPlace (s : Store) (d : Disk) : Location := s.place d ++ ["manifest.tmp"]

/-- The directory of the store is there, and the path of the manifest can be asked for. -/
structure Placed (s : Store) (d : Disk) : Prop where
  proper : s.directory.Proper
  located : d.locate s.directory = .ok (s.place d)
  directory : d.files.entry? (s.place d) = some .directory
  fits : s.manifestPath.Askable

theorem isName_manifest : Path.IsName "manifest.json" := ⟨by decide, by decide⟩

theorem isName_draft : Path.IsName "manifest.tmp" := ⟨by decide, by decide⟩

theorem manifestPlace_ne_draftPlace (s : Store) (d : Disk) : s.manifestPlace d ≠ s.draftPlace d := by
  simp [manifestPlace, draftPlace]

theorem manifestPlace_ne_nil (s : Store) (d : Disk) : s.manifestPlace d ≠ [] := by
  simp [manifestPlace]

theorem draftPlace_ne_nil (s : Store) (d : Disk) : s.draftPlace d ≠ [] := by
  simp [draftPlace]

variable {s : Store} {d d' : Disk} {name : String}

theorem place_of_current (h : d'.current = d.current) : s.place d' = s.place d := by
  rw [place, place, h]

theorem manifestPlace_of_current (h : d'.current = d.current) :
    s.manifestPlace d' = s.manifestPlace d := by
  rw [manifestPlace, manifestPlace, place_of_current h]

theorem draftPlace_of_current (h : d'.current = d.current) :
    s.draftPlace d' = s.draftPlace d := by
  rw [draftPlace, draftPlace, place_of_current h]

namespace Placed

theorem mono (h : s.Placed d) (hcont : Disk.Continues d d') : s.Placed d' where
  proper := h.proper
  located := by
    rw [place_of_current hcont.current]
    exact Disk.locate_mono hcont h.located
  directory := by
    rw [place_of_current hcont.current]
    exact hcont.keeps _ h.directory
  fits := h.fits

theorem locate_below (h : s.Placed d) (hname : Path.IsName name) (hup : name ≠ "..")
    (hsize : name.utf8ByteSize ≤ Disk.nameLimit) (hask : (s.below name).Askable) :
    d.locate (s.below name) = .ok (s.place d ++ [name]) :=
  Disk.locate_join h.located h.directory hname hup hsize hask

theorem locate_manifest (h : s.Placed d) : d.locate s.manifestPath = .ok (s.manifestPlace d) :=
  h.locate_below isName_manifest (by decide) (by decide) h.fits

theorem locate_draft (h : s.Placed d) : d.locate s.draftPath = .ok (s.draftPlace d) :=
  h.locate_below isName_draft (by decide) (by decide)
    (@Path.Askable.sibling _ "manifest.json" _ h.fits isName_manifest isName_draft
      (by decide) (by decide))

end Placed

/-! ## Steps of a computation -/

section Steps

variable {α : Type} {x : α} {e : Files.Error}

theorem outcome_onFiles_ok {a : Action Files.Error α} (h : a.outcome d = (.ok x, d')) :
    (onFiles a).outcome d = (.ok x, d') := Action.outcome_mapError_ok h

theorem outcome_onFiles_error {a : Action Files.Error α} (h : a.outcome d = (.error e, d')) :
    (onFiles a).outcome d = (.error (.files e), d') := Action.outcome_mapError_error h

/-- It is known whether something is there. -/
theorem outcome_isThere {path : Path} {there : Bool} (h : d.isThere path = .ok there) :
    (onFiles (.askFor (·.isThere path))).outcome d = (.ok there, d) :=
  outcome_onFiles_ok (by rw [Action.outcome_askFor, h])

theorem outcome_isThere_error {path : Path} (h : d.isThere path = .error e) :
    (onFiles (.askFor (·.isThere path))).outcome d = (.error (.files e), d) :=
  outcome_onFiles_error (by rw [Action.outcome_askFor, h])

theorem cases_onFiles {a : Action Files.Error α} {r : Except Fault α}
    (h : (onFiles a).outcome d = (r, d')) :
    (∃ e, a.outcome d = (.error e, d') ∧ r = .error (.files e))
      ∨ ∃ x, a.outcome d = (.ok x, d') ∧ r = .ok x := Action.cases_mapError h

theorem outcome_found_ok {found? : Except Json.Misfit α} (h : found? = .ok x) :
    (found found?).outcome d = (.ok x, d) := by
  rw [h]
  rfl

end Steps

/-! ## Writing the manifest -/

/-- The changes that writing a manifest makes. -/
def writing (s : Store) (d : Disk) (manifest : Value) : List Change :=
  [.writeFile (s.draftPlace d) (Manifest.written manifest),
    .rename (s.draftPlace d) (s.manifestPlace d)]

theorem writing_of_current (h : d'.current = d.current) (manifest : Value) :
    s.writing d' manifest = s.writing d manifest := by
  rw [writing, writing, draftPlace_of_current h, manifestPlace_of_current h]

/-- The draft is gone afterwards, and nothing but the manifest is new. -/
theorem entry?_writing (s : Store) (d : Disk) (manifest : Value) (q : Location) :
    (d.after (s.writing d manifest)).files.entry? q
      = if q = s.manifestPlace d then some (.file (Manifest.written manifest))
        else if q = s.draftPlace d then none else d.files.entry? q := by
  have hentry : FileSystem.entry? (d.files.put (s.draftPlace d) (.file (Manifest.written manifest)))
      (s.draftPlace d) = some (.file (Manifest.written manifest)) :=
    FileSystem.entry?_put_self (draftPlace_ne_nil s d)
  rw [writing, Disk.files_after, Change.applyAll_cons, Change.applyAll_cons, Change.applyAll_nil]
  simp only [Change.apply, hentry, FileSystem.entry?_setLock]
  rw [FileSystem.entry?_put (manifestPlace_ne_nil s d)]
  split
  · rfl
  split
  · next h =>
    rw [h, FileSystem.entry?_erase_self (draftPlace_ne_nil s d)]
  · next h => rw [FileSystem.entry?_erase_of_ne h, FileSystem.entry?_put_of_ne h]

/-- No other file is locked differently. -/
theorem lock?_writing {manifest : Value} {q : Location} (hmanifest : q ≠ s.manifestPlace d)
    (hdraft : q ≠ s.draftPlace d) :
    (d.after (s.writing d manifest)).files.lock? q = d.files.lock? q := by
  refine Change.lock?_applyAll ?_
  simp [writing, Change.lockPlaces, Change.places, hmanifest, hdraft]

/-- The manifest takes the place of the draft, which is new and not locked. -/
theorem isLocked_writing {manifest : Value} :
    (d.after (s.writing d manifest)).files.isLocked (s.manifestPlace d) = false := by
  have hentry : FileSystem.entry? (d.files.put (s.draftPlace d) (.file (Manifest.written manifest)))
      (s.draftPlace d) = some (.file (Manifest.written manifest)) :=
    FileSystem.entry?_put_self (draftPlace_ne_nil s d)
  have hlock : (d.after (s.writing d manifest)).files.lock? (s.manifestPlace d) = none := by
    rw [writing, Disk.files_after, Change.applyAll_cons, Change.applyAll_cons, Change.applyAll_nil]
    simp only [Change.apply, hentry]
    rw [FileSystem.lock?_setLock, if_pos rfl, FileSystem.lock?_put, if_pos rfl]
  rw [FileSystem.isLocked, hlock, Option.isSome_none, Bool.and_false]

theorem continues_writing {manifest : Value}
    (hmanifest : d.files.entry? (s.manifestPlace d) ≠ some .directory)
    (hdraft : d.files.entry? (s.draftPlace d) ≠ some .directory) :
    Disk.Continues d (d.after (s.writing d manifest)) where
  current := rfl
  keeps q hq := by
    rw [entry?_writing, if_neg, if_neg, hq]
    · rintro rfl
      exact hdraft hq
    · rintro rfl
      exact hmanifest hq

theorem writeManifest_eq (s : Store) (manifest : Value) : s.writeManifest manifest
    = (onFiles (.write s.draftPath (Manifest.written manifest)) >>= fun _ =>
      onFiles (.move s.draftPath s.manifestPath)) := rfl

theorem outcome_writeManifest {manifest : Value} (hp : s.Placed d)
    (hmanifest : d.files.entry? (s.manifestPlace d) ≠ some .directory)
    (hdraft : d.files.Accepts (s.draftPlace d)) :
    (s.writeManifest manifest).outcome d = (.ok (), d.after (s.writing d manifest)) := by
  have hcont : Disk.Continues d
      (d.after [.writeFile (s.draftPlace d) (Manifest.written manifest)]) :=
    Disk.continues_writeFile hdraft.notDirectory
  rw [writeManifest_eq, Action.outcome_bind_ok
    (outcome_onFiles_ok (Action.outcome_write hp.locate_draft hdraft))]
  refine (outcome_onFiles_ok (Action.outcome_move
    (Disk.locate_mono hcont hp.locate_draft) (Disk.locate_mono hcont hp.locate_manifest)
    ?_ ?_)).trans (by rw [Disk.after_after]; rfl)
  · show (FileSystem.entry? (d.files.put (s.draftPlace d) _) (s.draftPlace d)).isSome
    rw [FileSystem.entry?_put_self (draftPlace_ne_nil s d)]
    rfl
  · show FileSystem.entry? (d.files.put (s.draftPlace d) _) (s.manifestPlace d) ≠ _
    rw [FileSystem.entry?_put_of_ne (manifestPlace_ne_draftPlace s d)]
    exact hmanifest

/-- Writing the manifest fails and has written nothing, or has written the draft, or it makes its
two changes. -/
theorem cases_writeManifest {manifest : Value} {r : Except Fault Unit} (hp : s.Placed d)
    (h : (s.writeManifest manifest).outcome d = (r, d')) :
    (∃ e, r = .error e ∧ (d' = d ∨ d' = d.after [.refuse (s.draftPlace d)]))
      ∨ (∃ e, r = .error e ∧ d.files.Accepts (s.draftPlace d)
        ∧ d' = d.after [.writeFile (s.draftPlace d) (Manifest.written manifest)])
      ∨ (r = .ok () ∧ d.files.Accepts (s.draftPlace d)
        ∧ d.files.entry? (s.manifestPlace d) ≠ some .directory
        ∧ d' = d.after (s.writing d manifest)) := by
  rw [writeManifest_eq] at h
  rcases Action.cases_bind h with ⟨e, hwrite, rfl⟩ | ⟨x, between, hwrite, hmove⟩
  · rcases cases_onFiles hwrite with ⟨e', hwritten, -⟩ | ⟨_, _, hno⟩
    · rcases Action.cases_write hwritten with ⟨_, _, rfl⟩ | ⟨q, hq, -, -, rfl⟩ | ⟨_, _, _, hno, _⟩
      · exact .inl ⟨e, rfl, .inl rfl⟩
      · rw [hp.locate_draft] at hq
        cases hq
        exact .inl ⟨e, rfl, .inr rfl⟩
      · cases hno
    · cases hno
  rcases cases_onFiles hwrite with ⟨_, _, hno⟩ | ⟨x', hwritten, -⟩
  · cases hno
  rcases Action.cases_write hwritten with ⟨_, hno, _⟩ | ⟨_, _, _, hno, _⟩ | ⟨q, hq, hdraft, -, rfl⟩
  · cases hno
  · cases hno
  -- the draft is written: what is left to fail is the move
  rw [hp.locate_draft] at hq
  cases hq
  have hcont : Disk.Continues d
      (d.after [.writeFile (s.draftPlace d) (Manifest.written manifest)]) :=
    Disk.continues_writeFile hdraft.notDirectory
  rcases cases_onFiles hmove with ⟨e, hmoved, rfl⟩ | ⟨y, hmoved, rfl⟩
  · rcases Action.cases_move hmoved with ⟨_, _, rfl⟩ | ⟨_, _, _, _, _, _, hno, _⟩
    · exact .inr (.inl ⟨_, rfl, hdraft, rfl⟩)
    · cases hno
  · rcases Action.cases_move hmoved with ⟨_, hno, _⟩ | ⟨a, b, ha, hb, -, hmanifest, -, rfl⟩
    · cases hno
    rw [Disk.locate_mono hcont hp.locate_draft] at ha
    rw [Disk.locate_mono hcont hp.locate_manifest] at hb
    cases ha
    cases hb
    exact .inr (.inr ⟨rfl, hdraft, fun hdir => hmanifest (hcont.keeps _ hdir),
      by rw [Disk.after_after]; rfl⟩)

/-! ## Reading the manifest -/

theorem read_manifestPath_congr (hp : s.Placed d) (hcont : Disk.Continues d d')
    (h : d'.files.entry? (s.manifestPlace d) = d.files.entry? (s.manifestPlace d)) :
    d'.read s.manifestPath = d.read s.manifestPath := by
  rw [Disk.read, Disk.read, Disk.lookUp, Disk.lookUp, hp.locate_manifest,
    Disk.locate_mono hcont hp.locate_manifest]
  simp only [bind, Except.bind, h]

/-- The manifest is the same as long as its file is. -/
theorem manifestOf_congr (hp : s.Placed d) (hcont : Disk.Continues d d')
    (h : d'.files.entry? (s.manifestPlace d) = d.files.entry? (s.manifestPlace d)) :
    s.manifestOf d' = s.manifestOf d := by
  rw [manifestOf, manifestOf, read_manifestPath_congr hp hcont h]

/-- The store lists some records. -/
def Lists (s : Store) (d : Disk) (rs : List Record) : Prop :=
  s.manifestOf d = .ok (Manifest.ofRecords rs)

/-- What was written as a manifest is listed, each record as it is read. -/
theorem lists_reread_of_entry {rs : List Record} (hp : s.Placed d)
    (hnamed : ∀ r ∈ rs, r.WellNamed) (h : d.files.entry? (s.manifestPlace d)
      = some (.file (Manifest.written (Manifest.ofRecords rs)))) :
    s.Lists d (rs.map Record.reread) := by
  have hread : d.read s.manifestPath = .ok (Manifest.written (Manifest.ofRecords rs)) :=
    Disk.read_eq_ok_iff.2 ⟨_, hp.locate_manifest, h⟩
  obtain ⟨hdecode, htext⟩ := Manifest.read_written hnamed
  rw [Lists, manifestOf, hread]
  simp only [hdecode, htext]
  rfl

theorem lists_of_entry {rs : List Record} (hp : s.Placed d) (hformed : ∀ r ∈ rs, r.Formed)
    (h : d.files.entry? (s.manifestPlace d)
      = some (.file (Manifest.written (Manifest.ofRecords rs)))) : s.Lists d rs := by
  have hlists := lists_reread_of_entry hp (fun r hr => (hformed r hr).wellNamed) h
  rwa [List.map_congr_left fun r hr => (hformed r hr).reread, List.map_id'] at hlists

/-- A manifest that was written is listed. -/
theorem lists_writing {rs : List Record} (hp : s.Placed d) (hformed : ∀ r ∈ rs, r.Formed)
    (hmanifest : d.files.entry? (s.manifestPlace d) ≠ some .directory)
    (hdraft : d.files.entry? (s.draftPlace d) ≠ some .directory) :
    s.Lists (d.after (s.writing d (Manifest.ofRecords rs))) rs := by
  refine lists_of_entry (hp.mono (continues_writing hmanifest hdraft)) hformed ?_
  rw [manifestPlace_of_current (Disk.current_after d _), entry?_writing, if_pos rfl]

/-- The records are those of the manifest as it is kept. -/
theorem outcome_records (s : Store) (d : Disk) : s.records.outcome d
    = ((s.manifestOf d).bind fun manifest => (Manifest.records manifest).mapError .misfit, d) := by
  have hread : s.readManifest.outcome d = (s.manifestOf d, d) := by
    rw [readManifest, Action.outcome_get_bind, Action.outcome_ofExcept]
  rcases hmanifest : s.manifestOf d with e | manifest
  · rw [records, Action.outcome_bind_error (hread.trans (by rw [hmanifest]))]
    rfl
  · rw [records, Action.outcome_bind_ok (hread.trans (by rw [hmanifest]))]
    rfl

theorem Lists.records {rs : List Record} (h : s.Lists d rs) :
    s.records.outcome d = (.ok (.array (rs.map Record.toValue)), d) := by
  rw [outcome_records, h]
  rfl

end Store

end SuperForward.Backup
