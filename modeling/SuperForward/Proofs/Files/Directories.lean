/-
  Making the directories of a settled path.

  A settled path is absolute and has no double dots. What lies above it are the beginnings of
  its location, so only these can be made; and if none of them is a file, all of them are.
-/
import SuperForward.Proofs.Files.Actions

namespace SuperForward.Files

variable {d d' : Disk} {p : Path} {q : Location} {fs : FileSystem} {r : Except Error Unit}

/-- The path is absolute and has no double dots, and none of its names is too long. -/
structure Path.Settled (p : Path) : Prop where
  absolute : p.isAbsolute = true
  up : ∀ name ∈ p.parts, name ≠ ".."
  size : ∀ name ∈ p.parts, name.utf8ByteSize ≤ Disk.nameLimit

/-- Nothing above the location is a file. -/
def FileSystem.NoFileAbove (fs : FileSystem) (q : Location) : Prop :=
  ∀ above, above <+: q → above ≠ q → ∀ bytes, fs.entry? above ≠ some (.file bytes)

namespace Path.Settled

theorem parent (h : p.Settled) : p.parent.Settled where
  absolute := h.absolute
  up name hname := h.up name (List.dropLast_subset _ hname)
  size name hname := h.size name (List.dropLast_subset _ hname)

theorem of_reachable (h : d.Reachable p) : p.Settled := ⟨h.absolute, h.up, h.size⟩

/-- A settled path can lead to one location only. -/
theorem eq_of_locate (h : p.Settled) (hlocate : d.locate p = .ok q) : q = p.parts := by
  rw [Disk.eq_of_locate hlocate, resolve, join, if_pos h.absolute]
  exact settle_of_forall_ne h.up

theorem reachable (h : p.Settled) (habove : Disk.DirectoriesAbove d.files p.parts) :
    d.Reachable p := ⟨h.absolute, h.up, h.size, habove⟩

/-- A settled path leads to its location, if the directory above is there. -/
theorem locate_of_parent (h : p.Settled) (hask : p.Askable) (hparts : p.parts ≠ [])
    (hdir : d.isDirectory p.parent = true) : d.locate p = .ok p.parts := by
  obtain ⟨q, hlocate, hentry⟩ := Disk.isDirectory_iff.1 hdir
  have habove := Disk.directoriesAbove_of_locate hlocate
  rw [h.parent.eq_of_locate hlocate] at habove hentry
  refine (h.reachable ?_).locate hask
  rw [← List.dropLast_append_getLast hparts]
  exact habove.append hentry

end Path.Settled

namespace Disk

/-- Names are followed to the end, or to a place where something is missing, unless they lead
by way of a file. -/
theorem follow_cases {place : Location} {names : List String}
    (hfree : ∀ q, place <+: q → q <+: place ++ names → q ≠ place ++ names →
      ∀ bytes, fs.entry? q ≠ some (.file bytes))
    (hsize : ∀ name ∈ names, name.utf8ByteSize ≤ nameLimit) (hup : ∀ name ∈ names, name ≠ "..") :
    follow fs place names = .ok (place ++ names) ∨ follow fs place names = .error .missing := by
  induction names generalizing place with
  | nil => exact .inl (by rw [List.append_nil]; rfl)
  | cons name names ih =>
    rcases hentry : fs.entry? place with - | bytes | -
    · exact .inr (by simp [follow, hentry])
    · exact absurd hentry (hfree place List.prefix_rfl (List.prefix_append ..) (by simp) bytes)
    · have hassoc : place ++ name :: names = place ++ [name] ++ names := by simp
      rw [follow_cons_of_directory hentry (hsize name (List.mem_cons_self ..)),
        if_neg (hup name (List.mem_cons_self ..)), hassoc]
      rw [hassoc] at hfree
      exact ih (fun q hq => hfree q ((List.prefix_append ..).trans hq))
        (fun n hn => hsize n (List.mem_cons_of_mem _ hn))
        fun n hn => hup n (List.mem_cons_of_mem _ hn)

/-- A settled path leads to its location, or something is missing above it. -/
theorem locate_cases (hp : p.Settled) (hask : p.Askable) (hfree : d.files.NoFileAbove p.parts) :
    d.locate p = .ok p.parts ∨ ∃ text, d.locate p = .error (.refused .missing text) := by
  have hjoin : (d.current.join p).parts = p.parts := by rw [Path.join, if_pos hp.absolute]
  rcases @follow_cases d.files [] p.parts (fun q _ => hfree q) hp.size hp.up with hok | hmissing
  · exact .inl (locate_eq_ok_iff.2 ⟨hask, by rw [hjoin, hok]; rfl⟩)
  · refine .inr ⟨toString p, ?_⟩
    have hno : (toString p).toList.contains '\x00' = false := by
      rw [← Bool.not_eq_true, List.contains_iff_mem]
      exact hask.noNull
    unfold locate
    simp only [hno, hjoin, hmissing, Except.mapError]
    rw [if_neg Bool.false_ne_true, if_neg (Nat.not_lt.2 hask.size)]

end Disk

namespace Action

/-- A directory can be made where its path leads, unless a file is there. -/
theorem exists_outcome_ensureDirectory (hlocate : d.locate p = .ok q)
    (hfree : ∀ bytes, d.files.entry? q ≠ some (.file bytes)) :
    ∃ d', (ensureDirectory p).outcome d = (.ok (), d') := by
  rcases hdir : d.isDirectory p with - | -
  · have hnone : d.files.entry? q = none := by
      rcases hentry : d.files.entry? q with - | bytes | -
      · rfl
      · exact absurd hentry (hfree bytes)
      · rw [Disk.isDirectory_iff.2 ⟨q, hlocate, hentry⟩] at hdir
        cases hdir
    refine ⟨d.after [.makeDirectory q], ?_⟩
    rw [ensureDirectory, outcome_ask_bind, hdir]
    show (makeDirectory p).outcome d = _
    rw [makeDirectory, outcome_askFor_bind_ok hlocate, outcome_ask_bind, hnone]
    rfl
  · exact ⟨d, outcome_ensureDirectory hdir⟩

theorem isPrefix_of_ensureDirectory (hp : p.Settled)
    (h : (ensureDirectory p).outcome d = (r, d'))
    (hq : d'.files.entry? q ≠ d.files.entry? q) : q <+: p.parts := by
  rcases cases_ensureDirectory h with ⟨-, -, rfl⟩ | ⟨place, hlocate, -, ⟨-, rfl⟩ | ⟨-, rfl⟩⟩
  · exact absurd rfl hq
  · exact absurd rfl hq
  · by_cases heq : q = place
    · obtain rfl := heq.trans (hp.eq_of_locate hlocate)
      exact List.prefix_rfl
    · refine absurd (Change.entry?_apply (.makeDirectory place) ?_) hq
      rwa [Change.places, List.mem_singleton]

theorem isPrefix_of_ensureDirectoriesWithin (levels : Nat) (hp : p.Settled)
    (h : (ensureDirectoriesWithin levels p).outcome d = (r, d'))
    (hq : d'.files.entry? q ≠ d.files.entry? q) : q <+: p.parts := by
  induction levels generalizing p d d' r with
  | zero => exact isPrefix_of_ensureDirectory hp h hq
  | succ levels ih =>
    rw [ensureDirectoriesWithin, outcome_get_bind] at h
    split at h
    · have habove : ∀ {between r}, (ensureDirectoriesWithin levels p.parent).outcome d = (r, between) →
          between.files.entry? q ≠ d.files.entry? q → q <+: p.parts :=
        fun hmade hq => (ih hp.parent hmade hq).trans (List.dropLast_prefix _)
      rcases cases_bind h with ⟨e, hmade, -⟩ | ⟨x, between, hmade, hlast⟩
      · exact habove hmade hq
      · by_cases hsame : between.files.entry? q = d.files.entry? q
        · exact isPrefix_of_ensureDirectory hp hlast (by rwa [hsame])
        · exact habove hmade hsame
    · exact isPrefix_of_ensureDirectory hp h hq

/-- Directories are made nowhere but at a settled path and above it. -/
theorem isPrefix_of_ensureDirectories (hp : p.Settled)
    (h : (ensureDirectories p).outcome d = (r, d'))
    (hq : d'.files.entry? q ≠ d.files.entry? q) : q <+: p.parts :=
  isPrefix_of_ensureDirectoriesWithin _ hp h hq

theorem exists_outcome_ensureDirectoriesWithin (levels : Nat) (hp : p.Settled) (hask : p.Askable)
    (hlevels : p.parts.length ≤ levels)
    (hfree : ∀ q, q <+: p.parts → ∀ bytes, d.files.entry? q ≠ some (.file bytes)) :
    ∃ d', (ensureDirectoriesWithin levels p).outcome d = (.ok (), d') := by
  induction levels generalizing p with
  | zero =>
    have hnil : p.parts = [] := List.length_eq_zero_iff.1 (Nat.le_zero.1 hlevels)
    have hlocate : d.locate p = .ok p.parts :=
      (hp.reachable (hnil ▸ Disk.directoriesAbove_nil _)).locate hask
    exact exists_outcome_ensureDirectory hlocate (hfree _ List.prefix_rfl)
  | succ levels ih =>
    rw [ensureDirectoriesWithin]
    rcases Disk.locate_cases hp hask fun q hq _ => hfree q hq with hok | ⟨text, hmissing⟩
    · obtain ⟨d', hmade⟩ := exists_outcome_ensureDirectory hok (hfree _ List.prefix_rfl)
      exact ⟨d', by rw [outcome_get_bind, hok]; exact hmade⟩
    · -- the directory above is made first, so that the path leads to its location
      have hparts : p.parts ≠ [] := by
        intro hnil
        have hlocate := (hp.reachable (d := d) (hnil ▸ Disk.directoriesAbove_nil _)).locate hask
        rw [hlocate] at hmissing
        cases hmissing
      obtain ⟨between, habove⟩ := ih hp.parent (hask.parent hp.absolute hparts)
        (by rw [Path.parent, List.length_dropLast]; omega)
        fun q hq => hfree q (hq.trans (List.dropLast_prefix _))
      obtain ⟨hwide, hdir⟩ := widened_ensureDirectoriesWithin levels habove
      have hlocate := hp.locate_of_parent hask hparts (hdir rfl)
      obtain ⟨d', hmade⟩ := exists_outcome_ensureDirectory hlocate fun bytes hfile =>
        hfree _ List.prefix_rfl bytes (hwide.entry_file.1 hfile)
      exact ⟨d', by rw [outcome_get_bind, hmissing]; exact (outcome_bind_ok habove).trans hmade⟩

/-- The directories of a settled path are made, unless one of them is a file. -/
theorem exists_outcome_ensureDirectories (hp : p.Settled) (hask : p.Askable)
    (hfree : ∀ q, q <+: p.parts → ∀ bytes, d.files.entry? q ≠ some (.file bytes)) :
    ∃ d', (ensureDirectories p).outcome d = (.ok (), d') :=
  exists_outcome_ensureDirectoriesWithin _ hp hask Nat.le.refl hfree

end Action

end SuperForward.Files
