/-
  Opening a store.

  The directory of a store is made and a manifest without records is written into it, unless
  they are there. Nothing outside of the directory is written. If nothing was in the directory
  before, or what a run of a store had left, then the store is sound.
-/
import SuperForward.Proofs.Backup.Restoring

namespace SuperForward.Backup

open SuperForward.Files (Path Disk Action Location Entry FileSystem Change)
open SuperForward.Json (Value)
open SuperForward.Text (Bytes)

namespace Store

variable {s : Store} {d d' made : Disk} {ids : List String} {r : Except Fault Unit}

/-! ## What is done -/

theorem place_of_isDirectory (h : made.isDirectory s.directory = true) :
    made.locate s.directory = .ok (s.place made)
      ∧ made.files.entry? (s.place made) = some .directory := by
  obtain ⟨q, hq, hdir⟩ := Disk.isDirectory_iff.1 h
  have heq : q = s.place made := Disk.eq_of_locate hq
  exact ⟨heq ▸ hq, heq ▸ hdir⟩

theorem open_eq (s : Store) : s.open = (onFiles (.ensureDirectories s.directory) >>= fun _ =>
    onFiles (.askFor (·.isThere s.manifestPath)) >>= fun there =>
      if !there then s.writeManifest Manifest.empty else pure ()) := rfl

/-- The directory of the store is made. Then opening fails, or the store is placed, and its
manifest is there or is written. -/
theorem cases_open (hdirectory : s.directory.Proper) (h : s.open.outcome d = (r, d')) :
    ∃ x made, (Action.ensureDirectories s.directory).outcome d = (x, made)
      ∧ ((∃ e, r = .error e ∧ d' = made)
        ∨ x = .ok () ∧ s.Placed made
          ∧ (made.isThere s.manifestPath = .ok true ∧ r = .ok () ∧ d' = made
            ∨ made.isThere s.manifestPath = .ok false
              ∧ (s.writeManifest Manifest.empty).outcome made = (r, d'))) := by
  rw [open_eq] at h
  rcases Action.cases_bind h with ⟨e, hmade, rfl⟩ | ⟨_, made, hmade, h⟩
  · rcases cases_onFiles hmade with ⟨e', hmade, -⟩ | ⟨_, _, hno⟩
    · exact ⟨_, d', hmade, .inl ⟨e, rfl, rfl⟩⟩
    · cases hno
  rcases cases_onFiles hmade with ⟨_, _, hno⟩ | ⟨x, hmade, -⟩
  · cases hno
  refine ⟨_, made, hmade, ?_⟩
  obtain ⟨hlocated, hdir⟩ := place_of_isDirectory ((Action.widened_ensureDirectories hmade).2 rfl)
  rcases hthere : made.isThere s.manifestPath with e | there
  · rw [Action.outcome_bind_error (outcome_isThere_error hthere)] at h
    cases h
    exact .inl ⟨_, rfl, rfl⟩
  rw [Action.outcome_bind_ok (outcome_isThere hthere)] at h
  have hplaced : s.Placed made := {
    proper := hdirectory
    located := hlocated
    directory := hdir
    fits := Disk.askable_of_isThere
      ((Disk.locate_eq_ok_iff.1 hlocated).1.noNull_join isName_manifest (by decide)) hthere }
  refine .inr ⟨rfl, hplaced, ?_⟩
  cases there with
  | true =>
    cases h
    exact .inl ⟨rfl, rfl, rfl⟩
  | false => exact .inr ⟨rfl, h⟩

/-- A manifest that is there is a file, or else nothing can be in its place. -/
theorem Placed.isThere_iff {there : Bool} (h : s.Placed d)
    (hthere : d.isThere s.manifestPath = .ok there) :
    there = true ↔ (d.files.entry? (s.manifestPlace d)).isSome := by
  constructor
  · rintro rfl
    obtain ⟨entry, hlook⟩ := Disk.lookUp_of_isThere hthere
    obtain ⟨q, hq, hentry⟩ := Disk.lookUp_eq_ok_iff.1 hlook
    rw [h.locate_manifest] at hq
    cases hq
    rw [hentry]
    rfl
  · intro hsome
    obtain ⟨entry, hentry⟩ := Option.isSome_iff_exists.1 hsome
    rw [Disk.isThere_of_lookUp (Disk.lookUp_of_locate h.locate_manifest hentry)] at hthere
    cases hthere
    rfl

/-! ## What is left alone -/

/-- The files outside of the directory of the store have the bytes that they had. -/
def SpareOthers (s : Store) (d d' : Disk) : Prop :=
  ∀ q, ¬ s.place d <+: q → d'.files.bytesAt? q = d.files.bytesAt? q

/-- While a store is opened, no file is written but in its directory. -/
theorem throughout_open (hdirectory : s.directory.Proper) (h : s.open.outcome d = (r, d')) :
    Disk.Throughout (s.SpareOthers d) d d' := by
  obtain ⟨x, made, hmade, hcases⟩ := cases_open hdirectory h
  obtain ⟨hwide, -⟩ := Action.widened_ensureDirectories hmade
  have hmaking : Disk.Throughout (s.SpareOthers d) d made :=
    hwide.throughout.mono fun between hwide q _ => hwide.bytesAt? q
  have hother : ∀ {between : Disk}, (∀ q, q ≠ s.draftPlace made → q ≠ s.manifestPlace made →
      between.files.entry? q = made.files.entry? q) → s.SpareOthers d between := by
    intro between hsame q hq
    rw [← place_of_current hwide.current] at hq
    rw [← hwide.bytesAt?, FileSystem.bytesAt?, FileSystem.bytesAt?, hsame]
    · rintro rfl
      exact hq (List.prefix_append ..)
    · rintro rfl
      exact hq (List.prefix_append ..)
  rcases hcases with ⟨e, rfl, rfl⟩ | ⟨rfl, hplaced, ⟨-, rfl, rfl⟩ | ⟨-, hwritten⟩⟩
  · exact hmaking
  · exact hmaking
  have hdraft : ∀ hfree : made.files.Accepts (s.draftPlace made),
      s.SpareOthers d (made.after [.writeFile (s.draftPlace made) (Manifest.written Manifest.empty)]) :=
    fun hfree => hother fun q hne _ => by rw [Disk.entry?_writeFile hfree.notDirectory, if_neg hne]
  -- the manifest is written as a draft first and then renamed: each of the two changes spares
  -- the others
  rcases cases_writeManifest hplaced hwritten with
    ⟨e, rfl, rfl | rfl⟩ | ⟨e, rfl, hfree, rfl⟩ | ⟨rfl, hfree, -, rfl⟩
  · exact hmaking
  · exact hmaking.trans (.change hmaking.last (hother fun _ _ _ => rfl))
  · exact hmaking.trans (.change hmaking.last (hdraft hfree))
  · have hwriting : s.SpareOthers d (made.after (s.writing made Manifest.empty)) :=
      hother fun q hne hne' => by rw [entry?_writing, if_neg hne', if_neg hne]
    have hrenaming : made.after (s.writing made Manifest.empty)
        = (made.after [.writeFile (s.draftPlace made) (Manifest.written Manifest.empty)]).after
          [.rename (s.draftPlace made) (s.manifestPlace made)] := by
      rw [Disk.after_after]
      rfl
    rw [hrenaming] at hwriting ⊢
    exact (hmaking.trans (.change hmaking.last (hdraft hfree))).trans (.change (hdraft hfree) hwriting)

/-- The files outside of the directory of the store are there, and are locked as they were. -/
def SpareLocks (s : Store) (d d' : Disk) : Prop :=
  ∀ q, ¬ s.place d <+: q → (d.files.bytesAt? q).isSome →
    (d'.files.bytesAt? q).isSome ∧ d'.files.lock? q = d.files.lock? q

/-- Opening a store locks no file outside of it, and lets go of none. -/
theorem spareLocks_open (hdirectory : s.directory.Proper) (h : s.open.outcome d = (r, d')) :
    s.SpareLocks d d' := by
  intro q hq hfile
  refine ⟨by rwa [(throughout_open hdirectory h).last q hq], ?_⟩
  obtain ⟨x, made, hmade, hcases⟩ := cases_open hdirectory h
  obtain ⟨hwide, -⟩ := Action.widened_ensureDirectories hmade
  rw [← place_of_current hwide.current] at hq
  have hmanifest : q ≠ s.manifestPlace made := by
    rintro rfl
    exact hq (List.prefix_append ..)
  have hdraft : q ≠ s.draftPlace made := by
    rintro rfl
    exact hq (List.prefix_append ..)
  rw [← hwide.lock? hfile]
  rcases hcases with ⟨e, rfl, rfl⟩ | ⟨rfl, hplaced, ⟨-, rfl, rfl⟩ | ⟨-, hwritten⟩⟩
  · rfl
  · rfl
  rcases cases_writeManifest hplaced hwritten with
    ⟨e, rfl, rfl | rfl⟩ | ⟨e, rfl, -, rfl⟩ | ⟨rfl, -, -, rfl⟩
  · rfl
  · exact Change.lock?_applyAll (by simpa [Change.lockPlaces] using hdraft)
  · exact Change.lock?_applyAll (by simpa [Change.lockPlaces, Change.places] using hdraft)
  · exact lock?_writing hmanifest hdraft

/-! ## New stores -/

/-- Where nothing is in the directory of the store, no directory is. -/
theorem ne_directory_of_empty {name : String}
    (hempty : ∀ q, s.place d <+: q → q ≠ s.place d → d.files.entry? q = none) :
    d.files.entry? (s.place d ++ [name]) ≠ some .directory := by
  rw [hempty _ (List.prefix_append ..) (by simp)]
  simp

/-- The first manifest was written into an empty directory. -/
theorem Placed.sound (h : s.Placed d) (ids : List String) (hcurrent : d.current.Proper)
    (hempty : ∀ q, s.place d <+: q → q ≠ s.place d → d.files.entry? q = none) :
    s.Sound [] ⟨d.after (s.writing d Manifest.empty), ids, []⟩ := by
  have hcont := @continues_writing s d Manifest.empty (ne_directory_of_empty hempty)
    (ne_directory_of_empty hempty)
  have hlisted : (d.after (s.writing d Manifest.empty)).files.entry? (s.manifestPlace d)
      = some (.file (Manifest.written (Manifest.ofRecords []))) := by
    rw [entry?_writing, if_pos rfl, Manifest.empty_eq]
  refine ⟨?_, by simp, by simp, by simp, hlisted⟩
  exact {
    current := hcurrent
    placed := h.mono hcont
    manifest := ⟨_, hlisted⟩
    draft := by
      rw [draftPlace_of_current hcont.current, entry?_writing,
        if_neg (manifestPlace_ne_draftPlace s d).symm, if_pos rfl]
    unused := fun id hid _ q hq => by
      rw [copiesPlace_of_current hcont.current] at hq
      have hbelow : s.place d <+: q := (List.prefix_append ..).trans hq
      have hne : q ≠ s.place d := by
        rintro rfl
        simpa [copiesPlace, Nat.succ_le_iff] using hq.length_le
      rw [entry?_writing, if_neg, if_neg, hempty q hbelow hne]
      · rintro rfl
        exact not_copiesPlace_isPrefix_draft hid hq
      · rintro rfl
        exact not_copiesPlace_isPrefix_manifest hid hq
    consistent := ⟨List.nodup_nil, by simp, by simp, by simp⟩
    stored := by simp
    writable := by simp }

/-- A store whose directory is empty, once it is there, is opened by writing the first manifest. -/
theorem exists_made_of_empty (hdirectory : s.directory.Proper)
    (hempty : ∀ made, (Action.ensureDirectories s.directory).outcome d = (.ok (), made) →
      ∀ q, s.place d <+: q → q ≠ s.place d → made.files.entry? q = none)
    (hout : s.open.outcome d = (.ok (), d')) :
    ∃ made, Action.Widened d made ∧ s.Placed made
      ∧ (∀ q, s.place made <+: q → q ≠ s.place made → made.files.entry? q = none)
      ∧ d' = made.after (s.writing made Manifest.empty) := by
  obtain ⟨x, made, hmade, ⟨_, hno, -⟩ | ⟨rfl, hplaced, hcases⟩⟩ := cases_open hdirectory hout
  · cases hno
  obtain ⟨hwide, -⟩ := Action.widened_ensureDirectories hmade
  have hnone : ∀ q, s.place made <+: q → q ≠ s.place made → made.files.entry? q = none := by
    rw [place_of_current hwide.current]
    exact hempty made hmade
  refine ⟨made, hwide, hplaced, hnone, ?_⟩
  rcases hcases with ⟨hthere, -, -⟩ | ⟨-, hwritten⟩
  · -- nothing is in the directory yet, so the manifest is not
    have hsome := (hplaced.isThere_iff hthere).1 rfl
    rw [hnone (s.manifestPlace made) (List.prefix_append ..) (by simp [manifestPlace])] at hsome
    cases hsome
  · rw [outcome_writeManifest hplaced (ne_directory_of_empty hnone) (FileSystem.accepts_of_none
      (hnone _ (List.prefix_append ..) (by simp [draftPlace])))]
      at hwritten
    cases hwritten
    rfl

/-- A store whose directory is empty, once it is there, is sound when it has been opened. -/
theorem sound_open_of_empty (hcurrent : d.current.Proper) (hdirectory : s.directory.Proper)
    (ids : List String)
    (hempty : ∀ made, (Action.ensureDirectories s.directory).outcome d = (.ok (), made) →
      ∀ q, s.place d <+: q → q ≠ s.place d → made.files.entry? q = none)
    (hout : s.open.outcome d = (.ok (), d')) :
    Disk.Continues d d' ∧ s.Sound [] ⟨d', ids, []⟩ := by
  obtain ⟨made, hwide, hplaced, hnone, rfl⟩ := exists_made_of_empty hdirectory hempty hout
  exact ⟨hwide.continues.trans (continues_writing (ne_directory_of_empty hnone)
    (ne_directory_of_empty hnone)), hplaced.sound ids (by rw [hwide.current]; exact hcurrent) hnone⟩

theorem Fresh.outcome_open (h : s.Fresh d) : s.open.outcome d = (.ok (), (s.start d).disk) :=
  Prod.ext h.opens rfl

/-- A store that is opened on a fresh directory is sound, and its ledger is empty. -/
theorem Fresh.sound (h : s.Fresh d) : s.Sound [] (s.start d) :=
  (sound_open_of_empty h.current h.directory [] h.empty h.outcome_open).2

/-! ## Stores of earlier runs -/

/-- What is in the directory of the store, once it is there: nothing yet, or what a run of a
store has left in its own, all of whose ids are among the given ones. -/
def Inherits (s : Store) (ids : List String) (d : Disk) : Prop :=
  ∀ made, (Action.ensureDirectories s.directory).outcome d = (.ok (), made) →
    (∀ q, s.place d <+: q → q ≠ s.place d → made.files.entry? q = none)
    ∨ ∃ (t : Store) (e : Disk) (events : List Event),
      t.Fresh e ∧ t.AllAllowed (t.start e) events
        ∧ (∀ id ∈ (t.after (t.start e) events).ids, id ∈ ids)
        ∧ ∀ names, made.files.entry? (s.place d ++ names)
          = (t.after (t.start e) events).disk.files.entry?
            (t.place (t.after (t.start e) events).disk ++ names)

/-- Where nothing is yet, the directory is empty once it was made. -/
theorem empty_of_settled {made : Disk} (hdirectory : s.directory.Settled)
    (hempty : ∀ q, s.directory.parts <+: q → d.files.entry? q = none)
    (hmade : (Action.ensureDirectories s.directory).outcome d = (.ok (), made)) {q : Location}
    (hbelow : s.directory.parts <+: q) (hne : q ≠ s.directory.parts) :
    made.files.entry? q = none := by
  by_cases hsame : made.files.entry? q = d.files.entry? q
  · rw [hsame, hempty q hbelow]
  · have hmaking := Action.isPrefix_of_ensureDirectories hdirectory hmade hsame
    exact absurd (hmaking.eq_of_length_le hbelow.length_le) hne

/-- Where a store has the files of a sound store, it is sound itself. What that store has listed
are older records now. -/
theorem Placed.sound_of_same {t : Store} {st : State} (h : s.Placed d) (ht : t.Sound [] st)
    (hcurrent : d.current.Proper) (hids : ∀ id ∈ st.ids, id ∈ ids)
    (hsame : ∀ names, d.files.entry? (s.place d ++ names)
      = st.disk.files.entry? (t.place st.disk ++ names)) :
    s.Sound (st.kept.map Kept.record) ⟨d, ids, []⟩ := by
  have hlisted : d.files.entry? (s.manifestPlace d)
      = some (.file (Manifest.written (Manifest.ofRecords (st.kept.map Kept.record)))) :=
    (hsame ["manifest.json"]).trans ht.listed
  refine ⟨?_, ?_, ?_, by simp, by rw [hlisted, List.map_nil, List.append_nil]⟩
  · exact {
      current := hcurrent
      placed := h
      manifest := ⟨_, hlisted⟩
      draft := (hsame ["manifest.tmp"]).trans ht.safe.draft
      unused := fun id hid hnew q hq => by
        obtain ⟨rest, rfl⟩ := hq
        rw [copiesPlace, List.append_assoc, hsame]
        refine ht.safe.unused id hid (fun hmem => hnew (hids id hmem)) _ ⟨rest, ?_⟩
        rw [copiesPlace, List.append_assoc]
      consistent := ⟨List.nodup_nil, by simp, by simp, by simp⟩
      stored := by simp
      writable := by simp }
  · exact List.forall_mem_map.2 fun k hk => (ht.safe.consistent.apart k hk).formed
  · exact List.forall_mem_map.2 fun k hk => hids _ (ht.safe.consistent.apart k hk).used

/-- A store that is opened where nothing is, or where a run of a store has left its files, is
sound, and its ledger is empty. -/
theorem Inherits.sound (h : s.Inherits ids d) (hcurrent : d.current.Proper)
    (hdirectory : s.directory.Proper) (hout : s.open.outcome d = (.ok (), d')) :
    Disk.Continues d d' ∧ ∃ older, s.Sound older ⟨d', ids, []⟩ := by
  obtain ⟨x, made, hmade, hcases⟩ := cases_open hdirectory hout
  rcases hcases with ⟨_, hno, -⟩ | ⟨rfl, hplaced, hcases⟩
  · cases hno
  rcases h made hmade with hempty | ⟨t, e, events, hfresh, hallowed, hids, hsame⟩
  · have hopened := sound_open_of_empty hcurrent hdirectory ids (fun made' hmade' => by
      rw [hmade] at hmade'
      cases hmade'
      exact hempty) hout
    exact ⟨hopened.1, [], hopened.2⟩
  obtain ⟨hwide, -⟩ := Action.widened_ensureDirectories hmade
  rw [← place_of_current hwide.current] at hsame
  have hsound := hplaced.sound_of_same (hfresh.sound.after hallowed)
    (by rw [hwide.current]; exact hcurrent) hids hsame
  rcases hcases with ⟨-, -, rfl⟩ | ⟨hthere, -⟩
  · exact ⟨hwide.continues, _, hsound⟩
  · -- the manifest is there, so none is written
    have hsome := (hplaced.isThere_iff hthere).2 (by
      obtain ⟨bytes, hfile⟩ := hsound.safe.manifest
      rw [hfile]
      rfl)
    cases hsome

end Store

end SuperForward.Backup
