/-
  What operations on files do.

  Each operation either fails and leaves what is on the disk as it is, or makes changes that are
  known from where its paths lead; a write to a locked file fails, and may wear out the lock.
  Something may also hold at every moment while a disk is changed.
-/
import SuperForward.Proofs.Files.Places

namespace SuperForward.Files

open SuperForward.Text (Bytes)

/-! ## Disks after changes -/

namespace Disk

/-- The disk after some changes. -/
def after (d : Disk) (changes : List Change) : Disk :=
  { d with files := Change.applyAll d.files changes, journal := d.journal ++ changes }

@[simp] theorem after_nil (d : Disk) : d.after [] = d := by simp [after]

@[simp] theorem current_after (d : Disk) (changes : List Change) :
    (d.after changes).current = d.current := rfl

@[simp] theorem files_after (d : Disk) (changes : List Change) :
    (d.after changes).files = Change.applyAll d.files changes := rfl

@[simp] theorem after_after (d : Disk) (cs cs' : List Change) :
    (d.after cs).after cs' = d.after (cs ++ cs') := by
  simp [after, Change.applyAll_append]

/-- The same is at every location; at most locks are different. -/
structure Alike (d d' : Disk) : Prop where
  current : d'.current = d.current
  entry : ∀ q, d'.files.entry? q = d.files.entry? q

namespace Alike

variable {d d' d'' : Disk}

theorem refl (d : Disk) : Alike d d := ⟨rfl, fun _ => rfl⟩

theorem trans (h : Alike d d') (h' : Alike d' d'') : Alike d d'' :=
  ⟨h'.current.trans h.current, fun q => (h'.entry q).trans (h.entry q)⟩

theorem continues (h : Alike d d') : Disk.Continues d d' :=
  ⟨h.current, fun q hq => (h.entry q).trans hq⟩

theorem bytesAt? (h : Alike d d') (q : Location) : d'.files.bytesAt? q = d.files.bytesAt? q := by
  rw [FileSystem.bytesAt?, FileSystem.bytesAt?, h.entry]

theorem follow (h : Alike d d') (place : Location) (names : List String) :
    Disk.follow d'.files place names = Disk.follow d.files place names := by
  induction names generalizing place with
  | nil => rfl
  | cons name names ih => simp only [Disk.follow, h.entry, ih]

theorem read (h : Alike d d') (p : Path) : d'.read p = d.read p := by
  have hlocate : d'.locate p = d.locate p := by
    rw [locate, locate, h.current, h.follow]
  rw [Disk.read, Disk.read, lookUp, lookUp, hlocate]
  simp only [h.entry]

end Alike

theorem alike_refuse (d : Disk) (place : Location) : Alike d (d.after [.refuse place]) :=
  ⟨rfl, fun _ => rfl⟩

theorem alike_protect (d : Disk) (place : Location) : Alike d (d.after [.protect place]) :=
  ⟨rfl, fun _ => rfl⟩

/-- Where no directory is, directories stay what they are when a file is written. -/
theorem continues_writeFile {d : Disk} {q : Location} {bytes : Bytes}
    (hfree : d.files.entry? q ≠ some .directory) :
    Disk.Continues d (d.after [.writeFile q bytes]) :=
  ⟨rfl, Change.keepsDirectories_writeFile hfree⟩

theorem entry?_writeFile {d : Disk} {place : Location} {bytes : Bytes}
    (hfree : d.files.entry? place ≠ some .directory) (q : Location) :
    (d.after [.writeFile place bytes]).files.entry? q
      = if q = place then some (.file bytes) else d.files.entry? q :=
  FileSystem.entry?_put (FileSystem.ne_nil_of_not_directory hfree)

/-- Directories stay what they are when a file is deleted. -/
theorem continues_erase {d : Disk} {q : Location} {bytes : Bytes}
    (hfile : d.files.entry? q = some (.file bytes)) :
    Disk.Continues d { d with files := d.files.erase q } := by
  refine ⟨rfl, fun q' hdir => ?_⟩
  rw [FileSystem.entry?_erase_of_ne, hdir]
  rintro rfl
  rw [hfile] at hdir
  cases hdir

end Disk

namespace Action

variable {ε δ α β : Type} {d d' : Disk}

/-! ## Steps of a computation -/

theorem outcome_bind_ok {a : Action ε α} {f : α → Action ε β} {x : α}
    (h : a.outcome d = (.ok x, d')) : (a >>= f).outcome d = (f x).outcome d' := by
  unfold outcome at h ⊢
  rw [ExceptT.run_bind, StateT.run_bind, h]
  rfl

theorem outcome_bind_error {a : Action ε α} {f : α → Action ε β} {e : ε}
    (h : a.outcome d = (.error e, d')) : (a >>= f).outcome d = (.error e, d') := by
  unfold outcome at h ⊢
  rw [ExceptT.run_bind, StateT.run_bind, h]
  rfl

/-- A computation of two parts ends with a failure of the first, or with the second. -/
theorem cases_bind {a : Action ε α} {f : α → Action ε β} {r : Except ε β}
    (h : (a >>= f).outcome d = (r, d')) :
    (∃ e, a.outcome d = (.error e, d') ∧ r = .error e)
      ∨ ∃ x between, a.outcome d = (.ok x, between) ∧ (f x).outcome between = (r, d') := by
  rcases ha : a.outcome d with ⟨e | x, between⟩
  · rw [outcome_bind_error ha, Prod.mk.injEq] at h
    obtain ⟨rfl, rfl⟩ := h
    exact .inl ⟨e, rfl, rfl⟩
  · rw [outcome_bind_ok ha] at h
    exact .inr ⟨x, between, rfl, h⟩

@[simp] theorem outcome_pure (x : α) : (pure x : Action ε α).outcome d = (.ok x, d) := rfl

@[simp] theorem outcome_throw (e : ε) : (throw e : Action ε α).outcome d = (.error e, d) := rfl

@[simp] theorem outcome_ofExcept (e : Except ε α) : (ofExcept e).outcome d = (e, d) := rfl

@[simp] theorem outcome_askFor (question : Disk → Except ε α) :
    (askFor question).outcome d = (question d, d) := rfl

@[simp] theorem outcome_perform (change : Change) :
    (perform change : Action ε Unit).outcome d = (.ok (), d.after [change]) := rfl

@[simp] theorem outcome_throw_bind (e : ε) (f : α → Action ε β) :
    (throw e >>= f).outcome d = (.error e, d) := rfl

@[simp] theorem outcome_ask_bind (question : Disk → α) (f : α → Action ε β) :
    (ask question >>= f).outcome d = (f (question d)).outcome d := rfl

@[simp] theorem outcome_get_bind (f : Disk → Action ε β) :
    (get >>= f : Action ε β).outcome d = (f d).outcome d := rfl

theorem outcome_askFor_bind_ok {question : Disk → Except ε α} {f : α → Action ε β} {x : α}
    (h : question d = .ok x) : (askFor question >>= f).outcome d = (f x).outcome d :=
  outcome_bind_ok (by rw [outcome_askFor, h])

theorem outcome_askFor_bind_error {question : Disk → Except ε α} {f : α → Action ε β} {e : ε}
    (h : question d = .error e) : (askFor question >>= f).outcome d = (.error e, d) :=
  outcome_bind_error (by rw [outcome_askFor, h])

theorem outcome_mapError (f : δ → ε) (a : Action δ α) :
    (mapError f a).outcome d = ((a.outcome d).1.mapError f, (a.outcome d).2) := rfl

theorem outcome_mapError_ok {f : δ → ε} {a : Action δ α} {x : α}
    (h : a.outcome d = (.ok x, d')) : (mapError f a).outcome d = (.ok x, d') := by
  rw [outcome_mapError, h]
  rfl

theorem outcome_mapError_error {f : δ → ε} {a : Action δ α} {e : δ}
    (h : a.outcome d = (.error e, d')) : (mapError f a).outcome d = (.error (f e), d') := by
  rw [outcome_mapError, h]
  rfl

/-- A failure that is renamed is one of the computation. -/
theorem cases_mapError {f : δ → ε} {a : Action δ α} {r : Except ε α}
    (h : (mapError f a).outcome d = (r, d')) :
    (∃ e, a.outcome d = (.error e, d') ∧ r = .error (f e))
      ∨ ∃ x, a.outcome d = (.ok x, d') ∧ r = .ok x := by
  rcases ha : a.outcome d with ⟨e | x, between⟩
  · rw [outcome_mapError_error ha, Prod.mk.injEq] at h
    obtain ⟨rfl, rfl⟩ := h
    exact .inl ⟨e, rfl, rfl⟩
  · rw [outcome_mapError_ok ha, Prod.mk.injEq] at h
    obtain ⟨rfl, rfl⟩ := h
    exact .inr ⟨x, rfl, rfl⟩

/-! ## Operations -/

variable {p source target : Path} {place a b : Location} {bytes : Bytes}
  {r : Except Error Unit}

theorem outcome_read (p : Path) : (read p).outcome d = (d.read p, d) := rfl

theorem outcome_write (hlocate : d.locate p = .ok place) (hplace : d.files.Accepts place) :
    (write p bytes).outcome d = (.ok (), d.after [.writeFile place bytes]) := by
  have hnot := FileSystem.isDirectory_eq_false_iff.2 hplace.notDirectory
  unfold write
  rw [outcome_askFor_bind_ok hlocate, outcome_ask_bind, hnot]
  show (ask _ >>= _ : Action Error Unit).outcome d = _
  rw [outcome_ask_bind, hplace.unlocked]
  rfl

/-- A locked file is not written. -/
theorem outcome_write_of_isLocked (hlocate : d.locate p = .ok place)
    (hlocked : d.files.isLocked place = true) :
    (write p bytes).outcome d
      = (.error (.refused .denied (toString p)), d.after [.refuse place]) := by
  obtain ⟨⟨_, hfile⟩, -⟩ := FileSystem.isLocked_iff.1 hlocked
  have hnot := FileSystem.isDirectory_eq_false_iff.2 (by rw [hfile]; simp :
    d.files.entry? place ≠ some .directory)
  unfold write
  rw [outcome_askFor_bind_ok hlocate, outcome_ask_bind, hnot]
  show (ask _ >>= _ : Action Error Unit).outcome d = _
  rw [outcome_ask_bind, hlocked]
  rfl

/-- A file is written where its path leads, unless a directory is there or it is locked. -/
theorem cases_write (h : (write p bytes).outcome d = (r, d')) :
    (∃ e, r = .error e ∧ d' = d)
      ∨ (∃ place, d.locate p = .ok place ∧ d.files.isLocked place = true
        ∧ r = .error (.refused .denied (toString p)) ∧ d' = d.after [.refuse place])
      ∨ ∃ place, d.locate p = .ok place ∧ d.files.Accepts place
        ∧ r = .ok () ∧ d' = d.after [.writeFile place bytes] := by
  rcases hlocate : d.locate p with e | place
  · rw [write, outcome_askFor_bind_error hlocate] at h
    cases h
    exact .inl ⟨e, rfl, rfl⟩
  by_cases hplace : d.files.entry? place = some .directory
  · rw [write, outcome_askFor_bind_ok hlocate, outcome_ask_bind,
      FileSystem.isDirectory_iff.2 hplace] at h
    cases h
    exact .inl ⟨_, rfl, rfl⟩
  rcases hlocked : d.files.isLocked place with - | -
  · rw [outcome_write hlocate ⟨hplace, hlocked⟩] at h
    cases h
    exact .inr (.inr ⟨place, rfl, ⟨hplace, hlocked⟩, rfl, rfl⟩)
  · rw [outcome_write_of_isLocked hlocate hlocked] at h
    cases h
    exact .inr (.inl ⟨place, rfl, hlocked, rfl, rfl⟩)

theorem outcome_move (hsource : d.locate source = .ok a) (htarget : d.locate target = .ok b)
    (ha : (d.files.entry? a).isSome) (hb : d.files.entry? b ≠ some .directory) :
    (move source target).outcome d = (.ok (), d.after [.rename a b]) := by
  have hnot := FileSystem.isDirectory_eq_false_iff.2 hb
  refine outcome_mapError_ok ?_
  rw [outcome_askFor_bind_ok hsource, outcome_askFor_bind_ok htarget, outcome_ask_bind,
    Option.isNone_eq_false_iff.2 ha]
  show (ask _ >>= _ : Action Error Unit).outcome d = _
  rw [outcome_ask_bind, hnot]
  rfl

/-- A file is moved to where its new path leads, unless a directory is there. -/
theorem cases_move (h : (move source target).outcome d = (r, d')) :
    (∃ e, r = .error e ∧ d' = d)
      ∨ ∃ a b, d.locate source = .ok a ∧ d.locate target = .ok b ∧ (d.files.entry? a).isSome
        ∧ d.files.entry? b ≠ some .directory ∧ r = .ok () ∧ d' = d.after [.rename a b] := by
  rcases hsource : d.locate source with e | a
  · rw [move, outcome_mapError, outcome_askFor_bind_error hsource] at h
    cases h
    exact .inl ⟨_, rfl, rfl⟩
  rcases htarget : d.locate target with e | b
  · rw [move, outcome_mapError, outcome_askFor_bind_ok hsource,
      outcome_askFor_bind_error htarget] at h
    cases h
    exact .inl ⟨_, rfl, rfl⟩
  rcases ha : (d.files.entry? a).isNone with - | -
  · have hsome := Option.isNone_eq_false_iff.1 ha
    by_cases hb : d.files.entry? b = some .directory
    · rw [move, outcome_mapError, outcome_askFor_bind_ok hsource, outcome_askFor_bind_ok htarget,
        outcome_ask_bind, ha] at h
      have hdir := FileSystem.isDirectory_iff.2 hb
      simp only [Bool.false_eq_true, ↓reduceIte, outcome_ask_bind, hdir, outcome_throw_bind] at h
      cases h
      exact .inl ⟨_, rfl, rfl⟩
    · rw [outcome_move hsource htarget hsome hb] at h
      cases h
      exact .inr ⟨a, b, rfl, rfl, hsome, hb, rfl, rfl⟩
  · rw [move, outcome_mapError, outcome_askFor_bind_ok hsource, outcome_askFor_bind_ok htarget,
      outcome_ask_bind, ha] at h
    cases h
    exact .inl ⟨_, rfl, rfl⟩

/-- Where a file is copied to: into a directory, or else to the path itself. -/
def copyTarget (d : Disk) (source target : Path) : Path :=
  if d.isDirectory target then target.join (.ofText source.lastWord) else target

/-- What is done for a copy: the bytes are written, and a file that may only be read makes the
copy one that may only be read. -/
def copied (d : Disk) (source : Path) (place : Location) (bytes : Bytes) : List Change :=
  .writeFile place bytes ::
    if (d.after [.writeFile place bytes]).isReadOnly source then [.protect place] else []

/-- After the bytes of a copy were written, at most its lock is different. -/
theorem alike_copied (d : Disk) (source : Path) (place : Location) (bytes : Bytes) :
    Disk.Alike (d.after [.writeFile place bytes]) (d.after (copied d source place bytes)) := by
  unfold copied
  split
  · have hprotected := Disk.alike_protect (d.after [.writeFile place bytes]) place
    rwa [Disk.after_after] at hprotected
  · exact .refl _

theorem entry?_copied (hfree : d.files.entry? place ≠ some .directory) (q : Location) :
    (d.after (copied d source place bytes)).files.entry? q
      = if q = place then some (.file bytes) else d.files.entry? q := by
  rw [(alike_copied d source place bytes).entry, Disk.entry?_writeFile hfree]

theorem continues_copied (hfree : d.files.entry? place ≠ some .directory) :
    Disk.Continues d (d.after (copied d source place bytes)) :=
  (Disk.continues_writeFile hfree).trans (alike_copied d source place bytes).continues

/-- Only the copy itself may be locked differently. -/
theorem lock?_copied {q : Location} (h : q ≠ place) :
    (d.after (copied d source place bytes)).files.lock? q = d.files.lock? q := by
  refine Change.lock?_applyAll fun c hc => ?_
  unfold copied at hc
  split at hc
  · rcases List.mem_cons.1 hc with rfl | hc
    · simpa [Change.lockPlaces, Change.places] using h
    · rw [List.mem_singleton.1 hc]
      simpa [Change.lockPlaces] using h
  · rw [List.mem_singleton.1 hc]
    simpa [Change.lockPlaces, Change.places] using h

theorem read_copied (hlocate : d.locate p = .ok place)
    (hfree : d.files.entry? place ≠ some .directory) :
    (d.after (copied d source place bytes)).read p = .ok bytes :=
  Disk.read_eq_ok_iff.2 ⟨place, Disk.locate_mono (continues_copied hfree) hlocate, by
    rw [entry?_copied hfree, if_pos rfl]⟩

theorem outcome_copyMode (htarget : d.locate target = .ok b) : (copyMode source target).outcome d
    = (.ok (), d.after (if d.isReadOnly source then [.protect b] else [])) := by
  rw [copyMode, outcome_ask_bind]
  split
  · exact (outcome_askFor_bind_ok htarget).trans (outcome_perform _)
  · rw [Disk.after_nil]
    rfl

/-- The bytes of a copy are written, and then it is as the file is. -/
theorem outcome_writeCopy (htarget : d.locate target = .ok b) (hb : d.files.Accepts b) :
    (write target bytes >>= fun _ => copyMode source target).outcome d
      = (.ok (), d.after (copied d source b bytes)) := by
  have hcont : Disk.Continues d (d.after [.writeFile b bytes]) :=
    Disk.continues_writeFile hb.notDirectory
  have htarget' := Disk.locate_mono hcont htarget
  rw [outcome_bind_ok (outcome_write htarget hb), outcome_copyMode htarget', Disk.after_after]
  rfl

/-- A file is copied to where the other path leads, unless the file there is locked. -/
theorem cases_copy (h : (copy source target).outcome d = (r, d')) :
    (∃ e, r = .error e ∧ d' = d)
      ∨ ∃ bytes place, d.read source = .ok bytes
        ∧ d.locate (copyTarget d source target) = .ok place
        ∧ (d.files.isLocked place = true ∧ (∃ e, r = .error e) ∧ d' = d.after [.refuse place]
          ∨ d.files.Accepts place ∧ r = .ok () ∧ d' = d.after (copied d source place bytes)) := by
  rw [copy, outcome_ask_bind] at h
  generalize hpair : (if d.isDirectory target = true then _ else _ : Path × String) = pair at h
  have htarget : copyTarget d source target = pair.1 := by
    rw [← hpair, copyTarget]
    split <;> rfl
  obtain ⟨target', text⟩ := pair
  rw [htarget]
  rcases hsame : d.isSame source target' with e | - | -
  · rw [outcome_askFor_bind_error hsame] at h
    cases h
    exact .inl ⟨_, rfl, rfl⟩
  · rw [outcome_askFor_bind_ok hsame] at h
    rcases hread : d.read source with e | bytes
    · rw [if_neg Bool.false_ne_true, outcome_bind_error (by rw [outcome_read, hread])] at h
      cases h
      exact .inl ⟨_, rfl, rfl⟩
    rw [if_neg Bool.false_ne_true, outcome_bind_ok (by rw [outcome_read, hread])] at h
    -- the bytes are written or they are not, and then nothing is done any more
    rcases hwrite : (write target' bytes).outcome d with ⟨written, between⟩
    rcases cases_write hwrite with ⟨e, rfl, rfl⟩ | ⟨place, hlocate, hlocked, rfl, rfl⟩ |
      ⟨place, hlocate, hplace, -, -⟩
    · rw [outcome_mapError_error (outcome_bind_error hwrite)] at h
      cases h
      exact .inl ⟨_, rfl, rfl⟩
    · rw [outcome_mapError_error (outcome_bind_error hwrite)] at h
      cases h
      exact .inr ⟨bytes, place, rfl, hlocate, .inl ⟨hlocked, ⟨_, rfl⟩, rfl⟩⟩
    · rw [outcome_mapError_ok (outcome_writeCopy hlocate hplace)] at h
      cases h
      exact .inr ⟨bytes, place, rfl, hlocate, .inr ⟨hplace, rfl, rfl⟩⟩
  · rw [outcome_askFor_bind_ok hsame] at h
    cases h
    exact .inl ⟨_, rfl, rfl⟩

/-- What is done to copy a file over another one, or to where nothing is yet. -/
theorem outcome_copy_of_locate (hread : d.read source = .ok bytes)
    (hsource : d.locate source = .ok a) (htarget : d.locate target = .ok b) (hne : a ≠ b)
    (hb : d.files.entry? b ≠ some .directory) : (copy source target).outcome d
      = (mapError (Error.about (toString target))
        (write target bytes >>= fun _ => copyMode source target)).outcome d := by
  have hnot : d.isDirectory target = false := by
    rw [← Bool.not_eq_true, Disk.isDirectory_iff]
    rintro ⟨q, hq, hdir⟩
    rw [htarget] at hq
    cases hq
    exact hb hdir
  have hsame := Disk.isSame_of_locate hread hsource htarget hne
  rw [copy, outcome_ask_bind, hnot]
  show (askFor _ >>= _ : Action Error Unit).outcome d = _
  rw [outcome_askFor_bind_ok hsame, if_neg Bool.false_ne_true,
    outcome_bind_ok (by rw [outcome_read, hread])]

theorem outcome_copy (hread : d.read source = .ok bytes) (hsource : d.locate source = .ok a)
    (htarget : d.locate target = .ok b) (hne : a ≠ b) (hb : d.files.Accepts b) :
    (copy source target).outcome d = (.ok (), d.after (copied d source b bytes)) :=
  (outcome_copy_of_locate hread hsource htarget hne hb.notDirectory).trans
    (outcome_mapError_ok (outcome_writeCopy htarget hb))

/-- Nothing is copied over a locked file. -/
theorem outcome_copy_of_isLocked (hread : d.read source = .ok bytes)
    (hsource : d.locate source = .ok a) (htarget : d.locate target = .ok b) (hne : a ≠ b)
    (hlocked : d.files.isLocked b = true) : (copy source target).outcome d
      = (.error (.refused .denied (toString target)), d.after [.refuse b]) := by
  obtain ⟨⟨_, hfile⟩, -⟩ := FileSystem.isLocked_iff.1 hlocked
  exact (outcome_copy_of_locate hread hsource htarget hne (by rw [hfile]; simp)).trans
    (outcome_mapError_error (outcome_bind_error (outcome_write_of_isLocked htarget hlocked)))

/-! ## Making directories -/

theorem outcome_ensureDirectory (h : d.isDirectory p = true) :
    (ensureDirectory p).outcome d = (.ok (), d) := by
  rw [ensureDirectory, outcome_ask_bind, h]
  rfl

/-- A directory is there already, or it is made where nothing is. -/
theorem cases_ensureDirectory (h : (ensureDirectory p).outcome d = (r, d')) :
    (∃ e, r = .error e ∧ d' = d)
      ∨ ∃ place, d.locate p = .ok place ∧ r = .ok ()
        ∧ (d.files.entry? place = some .directory ∧ d' = d
          ∨ d.files.entry? place = none ∧ d' = d.after [.makeDirectory place]) := by
  rcases hdir : d.isDirectory p with - | -
  · rw [ensureDirectory, outcome_ask_bind, hdir] at h
    change (makeDirectory p).outcome d = _ at h
    rw [makeDirectory] at h
    rcases hlocate : d.locate p with e | place
    · rw [outcome_askFor_bind_error hlocate] at h
      cases h
      exact .inl ⟨_, rfl, rfl⟩
    · rw [outcome_askFor_bind_ok hlocate, outcome_ask_bind] at h
      rcases hentry : d.files.entry? place with - | entry
      · rw [hentry] at h
        cases h
        exact .inr ⟨place, rfl, rfl, .inr ⟨hentry, rfl⟩⟩
      · rw [hentry] at h
        cases h
        exact .inl ⟨_, rfl, rfl⟩
  · rw [outcome_ensureDirectory hdir] at h
    cases h
    obtain ⟨place, hlocate, hentry⟩ := Disk.isDirectory_iff.1 hdir
    exact .inr ⟨place, hlocate, rfl, .inl ⟨hentry, rfl⟩⟩

/-- Unless a path cannot be followed for want of a directory, none is made but the last. -/
theorem outcome_ensureDirectories
    (h : ∀ text, d.locate p ≠ .error (.refused .missing text)) :
    (ensureDirectories p).outcome d = (ensureDirectory p).outcome d := by
  unfold ensureDirectories
  cases p.parts.length with
  | zero => rfl
  | succ levels =>
    rw [ensureDirectoriesWithin, outcome_get_bind]
    split
    · next text heq => exact absurd heq (h text)
    · rfl

/-- Directories were made, each where nothing was. -/
inductive Widened (d : Disk) : Disk → Prop
  | refl : Widened d d
  | make {between : Disk} {place : Location} (h : Widened d between)
      (hplace : between.files.entry? place = none) :
      Widened d (between.after [.makeDirectory place])

namespace Widened

theorem trans {d₁ d₂ d₃ : Disk} (h : Widened d₁ d₂) (h' : Widened d₂ d₃) : Widened d₁ d₃ := by
  induction h' with
  | refl => exact h
  | make _ hplace ih => exact .make ih hplace

theorem current (h : Widened d d') : d'.current = d.current := by
  induction h with
  | refl => rfl
  | make _ _ ih => exact ih

/-- What was there is still there, and what is new is a directory. -/
theorem entry (h : Widened d d') (q : Location) : d'.files.entry? q = d.files.entry? q
    ∨ d.files.entry? q = none ∧ d'.files.entry? q = some .directory := by
  induction h with
  | refl => exact .inl rfl
  | @make between place _ hplace ih =>
    by_cases hq : q = place
    · subst hq
      refine .inr ⟨?_, Change.entry?_makeDirectory ..⟩
      rcases ih with ih | ⟨ih, -⟩
      · rw [← ih, hplace]
      · exact ih
    · rw [Disk.files_after, Change.applyAll_cons, Change.applyAll_nil,
        Change.entry?_apply _ (by simpa [Change.places] using hq)]
      exact ih

theorem entry_file (h : Widened d d') {q : Location} {bytes : Bytes} :
    d'.files.entry? q = some (.file bytes) ↔ d.files.entry? q = some (.file bytes) := by
  rcases h.entry q with heq | ⟨hnone, hdir⟩
  · rw [heq]
  · simp [hnone, hdir]

/-- All files have the bytes that they had. -/
theorem bytesAt? (h : Widened d d') (q : Location) : d'.files.bytesAt? q = d.files.bytesAt? q := by
  rcases h.entry q with heq | ⟨hnone, hdir⟩
  · rw [FileSystem.bytesAt?, FileSystem.bytesAt?, heq]
  · simp [FileSystem.bytesAt?, hnone, hdir]

theorem continues (h : Widened d d') : Disk.Continues d d' where
  current := h.current
  keeps q hq := by
    rcases h.entry q with heq | ⟨hnone, hdir⟩
    · rw [heq, hq]
    · exact hdir

/-- No file is locked differently. -/
theorem lock? (h : Widened d d') {q : Location} (hfile : (d.files.bytesAt? q).isSome) :
    d'.files.lock? q = d.files.lock? q := by
  induction h with
  | refl => rfl
  | @make between place hwide hplace ih =>
    have hne : q ≠ place := by
      rintro rfl
      rw [← hwide.bytesAt?, FileSystem.bytesAt?, hplace] at hfile
      cases hfile
    rw [← ih]
    exact Change.lock?_applyAll (List.forall_mem_singleton.2
      (by simpa [Change.lockPlaces, Change.places] using hne))

theorem isLocked (h : Widened d d') (q : Location) :
    d'.files.isLocked q = d.files.isLocked q := by
  rw [FileSystem.isLocked, FileSystem.isLocked, h.bytesAt?]
  rcases hfile : (d.files.bytesAt? q).isSome with - | -
  · rfl
  · rw [h.lock? hfile]

end Widened

theorem widened_ensureDirectory (h : (ensureDirectory p).outcome d = (r, d')) :
    Widened d d' ∧ (r = .ok () → d'.isDirectory p = true) := by
  rcases cases_ensureDirectory h with ⟨e, rfl, rfl⟩ | ⟨place, hlocate, rfl, ⟨hdir, rfl⟩ | ⟨hnone, rfl⟩⟩
  · refine ⟨.refl, fun hok => ?_⟩
    cases hok
  · exact ⟨.refl, fun _ => Disk.isDirectory_iff.2 ⟨place, hlocate, hdir⟩⟩
  · have hwide : Widened d (d.after [.makeDirectory place]) := .make .refl hnone
    exact ⟨hwide, fun _ => Disk.isDirectory_iff.2
      ⟨place, Disk.locate_mono hwide.continues hlocate, Change.entry?_makeDirectory ..⟩⟩

theorem widened_ensureDirectoriesWithin (levels : Nat)
    (h : (ensureDirectoriesWithin levels p).outcome d = (r, d')) :
    Widened d d' ∧ (r = .ok () → d'.isDirectory p = true) := by
  induction levels generalizing p d d' r with
  | zero => exact widened_ensureDirectory h
  | succ levels ih =>
    rw [ensureDirectoriesWithin, outcome_get_bind] at h
    split at h
    · rcases cases_bind h with ⟨e, hparent, rfl⟩ | ⟨x, between, hparent, hlast⟩
      · refine ⟨(ih hparent).1, fun hok => ?_⟩
        cases hok
      · have hwide := widened_ensureDirectory hlast
        exact ⟨(ih hparent).1.trans hwide.1, hwide.2⟩
    · exact widened_ensureDirectory h

/-- Making directories makes nothing else, and if it succeeds the directory is there. -/
theorem widened_ensureDirectories (h : (ensureDirectories p).outcome d = (r, d')) :
    Widened d d' ∧ (r = .ok () → d'.isDirectory p = true) :=
  widened_ensureDirectoriesWithin _ h

end Action

/-! ## Moments

Between two changes somebody else may look at a disk, or the run may end. A property that holds
throughout holds then, too.
-/

namespace Disk

variable {P Q : Disk → Prop} {d d' d'' : Disk}

/-- The disk was changed step by step, and had the property at every moment. -/
def Throughout (P : Disk → Prop) (d d' : Disk) : Prop :=
  ∃ changes, d' = d.after changes ∧ ∀ before, before <+: changes → P (d.after before)

namespace Throughout

theorem refl (h : P d) : Throughout P d d :=
  ⟨[], (after_nil d).symm, fun before hbefore => by rwa [List.prefix_nil.1 hbefore, after_nil]⟩

theorem last (h : Throughout P d d') : P d' := by
  obtain ⟨changes, rfl, hall⟩ := h
  exact hall changes List.prefix_rfl

theorem mono (h : Throughout P d d') (himp : ∀ x, P x → Q x) : Throughout Q d d' := by
  obtain ⟨changes, rfl, hall⟩ := h
  exact ⟨changes, rfl, fun before hbefore => himp _ (hall before hbefore)⟩

theorem trans (h : Throughout P d d') (h' : Throughout P d' d'') : Throughout P d d'' := by
  obtain ⟨changes, rfl, hall⟩ := h
  obtain ⟨more, rfl, hmore⟩ := h'
  refine ⟨changes ++ more, after_after .., fun before hbefore => ?_⟩
  obtain ⟨rest, hrest⟩ := hbefore
  rcases List.append_eq_append_iff.1 hrest with ⟨between, rfl, -⟩ | ⟨between, rfl, rfl⟩
  · exact hall before (List.prefix_append ..)
  · rw [← after_after]
    exact hmore between (List.prefix_append ..)

/-- One change is made. -/
theorem change {c : Change} (h : P d) (h' : P (d.after [c])) : Throughout P d (d.after [c]) := by
  refine ⟨[c], rfl, fun before hbefore => ?_⟩
  rcases List.prefix_cons_iff.1 hbefore with rfl | ⟨rest, rfl, hrest⟩
  · rwa [after_nil]
  · rwa [List.prefix_nil.1 hrest]

end Throughout

end Disk

/-- The bytes of a copy are written first. -/
theorem Action.throughout_copied {P : Disk → Prop} {d : Disk} {source : Path} {place : Location}
    {bytes : Bytes} (h : P d) (hwritten : P (d.after [.writeFile place bytes]))
    (hcopied : P (d.after (copied d source place bytes))) :
    Disk.Throughout P d (d.after (copied d source place bytes)) := by
  unfold copied at hcopied ⊢
  split at hcopied
  · have hboth := (Disk.Throughout.change h hwritten).trans (.change (c := .protect place) hwritten
      (by rwa [Disk.after_after]))
    rw [Disk.after_after] at hboth
    rwa [if_pos (by assumption)]
  · rw [if_neg (by assumption)]
    exact .change h hwritten

/-- Directories are made one by one. -/
theorem Action.Widened.throughout {d d' : Disk} (h : Action.Widened d d') :
    Disk.Throughout (Action.Widened d) d d' := by
  induction h with
  | refl => exact .refl .refl
  | make hwide hplace ih => exact ih.trans (.change hwide (.make hwide hplace))

end SuperForward.Files
