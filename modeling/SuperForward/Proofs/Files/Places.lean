/-
  Where paths lead, and what changes make of that.

  A path leads to its settled location, by way of directories only. As long as directories stay
  directories, a path that leads somewhere keeps leading there.
-/
import SuperForward.Files.Disk
import SuperForward.Proofs.Files.Paths

namespace SuperForward.Files

open SuperForward.Text (Bytes)

/-! ## Entries after changes -/

namespace FileSystem

variable {fs : FileSystem} {place q : Location} {entry : Entry} {lock : Option Lock}

@[simp] theorem entry?_nil (fs : FileSystem) : fs.entry? [] = some .directory := if_pos rfl

@[simp] theorem entry?_setLock :
    FileSystem.entry? (fs.setLock place lock) q = fs.entry? q := rfl

theorem entry?_put (hplace : place ≠ []) :
    FileSystem.entry? (fs.put place entry) q = if q = place then some entry else fs.entry? q := by
  rw [put, entry?_setLock]
  unfold entry?
  by_cases hq : q = []
  · rw [if_pos hq, if_neg (by rintro rfl; exact hplace hq), if_pos hq]
  · rw [if_neg hq, if_neg hq, OrderedMap.get?_insert]
    simp only [eq_comm]

theorem entry?_put_of_ne (h : q ≠ place) : FileSystem.entry? (fs.put place entry) q = fs.entry? q := by
  rw [put, entry?_setLock]
  unfold entry?
  by_cases hq : q = []
  · rw [if_pos hq, if_pos hq]
  · rw [if_neg hq, if_neg hq, OrderedMap.get?_insert, if_neg (Ne.symm h)]

theorem entry?_put_self (hplace : place ≠ []) :
    FileSystem.entry? (fs.put place entry) place = some entry := by
  rw [entry?_put hplace, if_pos rfl]

theorem entry?_erase_of_ne (h : q ≠ place) : FileSystem.entry? (fs.erase place) q = fs.entry? q := by
  rw [erase, entry?_setLock]
  unfold entry?
  by_cases hq : q = []
  · rw [if_pos hq, if_pos hq]
  · rw [if_neg hq, if_neg hq, OrderedMap.get?_erase, if_neg (Ne.symm h)]

theorem entry?_erase_self (hplace : place ≠ []) : FileSystem.entry? (fs.erase place) place = none := by
  rw [erase, entry?_setLock]
  unfold entry?
  rw [if_neg hplace, OrderedMap.get?_erase, if_pos rfl]

theorem isDirectory_eq_false_iff :
    fs.isDirectory place = false ↔ fs.entry? place ≠ some .directory := by
  rw [isDirectory, beq_eq_false_iff_ne]

theorem isDirectory_iff : fs.isDirectory place = true ↔ fs.entry? place = some .directory := by
  rw [isDirectory, beq_iff_eq]

theorem ne_nil_of_not_directory (h : fs.entry? place ≠ some .directory) : place ≠ [] := by
  rintro rfl
  exact h (entry?_nil fs)

theorem bytesAt?_eq_some_iff {bytes : Bytes} :
    fs.bytesAt? q = some bytes ↔ fs.entry? q = some (.file bytes) := by
  unfold bytesAt?
  rcases fs.entry? q with - | bytes' | - <;> simp

theorem lock?_setLock :
    FileSystem.lock? (fs.setLock place lock) q = if q = place then lock else fs.lock? q := by
  unfold lock? setLock
  cases lock with
  | none => simp only [OrderedMap.get?_erase, eq_comm]
  | some lock => simp only [OrderedMap.get?_insert, eq_comm]

theorem lock?_setLock_of_ne (h : q ≠ place) :
    FileSystem.lock? (fs.setLock place lock) q = fs.lock? q := by
  rw [lock?_setLock, if_neg h]

theorem lock?_put :
    FileSystem.lock? (fs.put place entry) q = if q = place then none else fs.lock? q :=
  lock?_setLock

theorem lock?_erase :
    FileSystem.lock? (fs.erase place) q = if q = place then none else fs.lock? q := lock?_setLock

theorem isLocked_iff : fs.isLocked place = true ↔
    (∃ bytes, fs.entry? place = some (.file bytes)) ∧ ∃ lock, fs.lock? place = some lock := by
  simp only [isLocked, Bool.and_eq_true, Option.isSome_iff_exists, bytesAt?_eq_some_iff]

theorem lock?_eq_none_of_file {bytes : Bytes} (hfile : fs.entry? place = some (.file bytes))
    (h : fs.isLocked place = false) : fs.lock? place = none := by
  rw [isLocked, bytesAt?_eq_some_iff.2 hfile] at h
  simpa using h

/-- A file can be written at the location: no directory is there, and no file that is locked. -/
structure Accepts (fs : FileSystem) (place : Location) : Prop where
  notDirectory : fs.entry? place ≠ some .directory
  unlocked : fs.isLocked place = false

theorem accepts_of_none (h : fs.entry? place = none) : fs.Accepts place where
  notDirectory := by simp [h]
  unlocked := by simp [isLocked, bytesAt?, h]

/-- Directories stay directories. -/
def KeepsDirectories (fs fs' : FileSystem) : Prop :=
  ∀ q, fs.entry? q = some .directory → fs'.entry? q = some .directory

namespace KeepsDirectories

theorem refl (fs : FileSystem) : KeepsDirectories fs fs := fun _ h => h

theorem trans {fs₁ fs₂ fs₃ : FileSystem} (h : KeepsDirectories fs₁ fs₂)
    (h' : KeepsDirectories fs₂ fs₃) : KeepsDirectories fs₁ fs₃ := fun q hq => h' q (h q hq)

end KeepsDirectories

end FileSystem

namespace Change

variable {fs : FileSystem} {place q : Location}

@[simp] theorem applyAll_nil (fs : FileSystem) : applyAll fs [] = fs := rfl

@[simp] theorem applyAll_cons (fs : FileSystem) (c : Change) (cs : List Change) :
    applyAll fs (c :: cs) = applyAll (c.apply fs) cs := rfl

/-- The locations at which something else may be after a change. -/
def places : Change → List Location
  | .makeDirectory place => [place]
  | .writeFile place _ => [place]
  | .rename source target => [source, target]
  | .protect _ | .refuse _ => []

/-- The locations whose locks may be different after a change. -/
def lockPlaces : Change → List Location
  | .protect place | .refuse place => [place]
  | change => change.places

/-- A change makes no difference elsewhere. -/
theorem entry?_apply (c : Change) (h : q ∉ c.places) :
    FileSystem.entry? (c.apply fs) q = fs.entry? q := by
  cases c with
  | makeDirectory place => exact FileSystem.entry?_put_of_ne (by simpa [places] using h)
  | writeFile place bytes => exact FileSystem.entry?_put_of_ne (by simpa [places] using h)
  | rename source target =>
    have hne : q ≠ source ∧ q ≠ target := by simpa [places] using h
    simp only [apply]
    split
    · rw [FileSystem.entry?_setLock, FileSystem.entry?_put_of_ne hne.2,
        FileSystem.entry?_erase_of_ne hne.1]
    · rfl
  | protect place => rfl
  | refuse place => rfl

theorem lock?_apply (c : Change) (h : q ∉ c.lockPlaces) :
    FileSystem.lock? (c.apply fs) q = fs.lock? q := by
  cases c with
  | makeDirectory place =>
    exact FileSystem.lock?_put.trans (if_neg (by simpa [lockPlaces, places] using h))
  | writeFile place bytes =>
    exact FileSystem.lock?_put.trans (if_neg (by simpa [lockPlaces, places] using h))
  | rename source target =>
    have hne : q ≠ source ∧ q ≠ target := by simpa [lockPlaces, places] using h
    simp only [apply]
    split
    · rw [FileSystem.lock?_setLock_of_ne hne.2, FileSystem.lock?_put, if_neg hne.2,
        FileSystem.lock?_erase, if_neg hne.1]
    · rfl
  | protect place =>
    exact FileSystem.lock?_setLock_of_ne (by simpa [lockPlaces] using h)
  | refuse place =>
    exact FileSystem.lock?_setLock_of_ne (by simpa [lockPlaces] using h)

theorem lock?_applyAll {cs : List Change} (h : ∀ c ∈ cs, q ∉ c.lockPlaces) :
    FileSystem.lock? (applyAll fs cs) q = fs.lock? q := by
  induction cs generalizing fs with
  | nil => rfl
  | cons c cs ih =>
    rw [List.forall_mem_cons] at h
    rw [applyAll_cons, ih h.2, lock?_apply c h.1]

/-- No file takes the place of a directory. -/
theorem keepsDirectories_writeFile {bytes : Bytes} (h : fs.entry? place ≠ some .directory) :
    fs.KeepsDirectories (apply fs (.writeFile place bytes)) := by
  intro q hq
  rw [entry?_apply _ (by rintro hmem; rw [places, List.mem_singleton] at hmem; exact h (hmem ▸ hq)),
    hq]

theorem entry?_makeDirectory (fs : FileSystem) (place : Location) :
    FileSystem.entry? (apply fs (.makeDirectory place)) place = some .directory := by
  by_cases h : place = []
  · rw [h, FileSystem.entry?_nil]
  · exact FileSystem.entry?_put_self h

end Change

/-- The file system can be asked for the path. -/
structure Path.Askable (p : Path) : Prop where
  noNull : '\x00' ∉ (toString p).toList
  size : (toString p).utf8ByteSize ≤ Disk.pathLimit

namespace Path

theorem askable_of_append {p q : Path} {rest : String} (h : toString q = toString p ++ rest)
    (hask : q.Askable) : p.Askable where
  noNull hmem := hask.noNull (by rw [h, String.toList_append]; exact List.mem_append_left _ hmem)
  size := by
    have := hask.size
    rw [h, String.utf8ByteSize_append] at this
    omega

theorem Askable.parent {p : Path} (h : p.Askable) (habs : p.isAbsolute = true)
    (hparts : p.parts ≠ []) : p.parent.Askable :=
  (toString_of_parent habs hparts).elim fun _ heq => askable_of_append heq h

/-- The path to an entry holds no null character but in the name of the entry. -/
theorem Askable.noNull_join {p : Path} {name : String} (h : p.Askable) (hname : IsName name)
    (hnull : '\x00' ∉ name.toList) : '\x00' ∉ (toString (p.join (.ofText name))).toList := by
  rw [toString_join_ofText p hname, String.toList_append, List.mem_append, not_or]
  refine ⟨?_, hnull⟩
  rw [entryPrefix]
  split
  · cases p.anchor <;> decide
  · rw [String.toList_append, List.mem_append, not_or]
    exact ⟨h.noNull, by decide⟩

/-- Another entry of a directory can be asked for, if its name is no longer. -/
theorem Askable.sibling {p : Path} {name other : String} (h : (p.join (.ofText name)).Askable)
    (hname : IsName name) (hother : IsName other) (hnull : '\x00' ∉ other.toList)
    (hsize : other.utf8ByteSize ≤ name.utf8ByteSize) : (p.join (.ofText other)).Askable := by
  obtain ⟨hno, hfits⟩ := h
  rw [toString_join_ofText p hname] at hno hfits
  rw [String.toList_append, List.mem_append, not_or] at hno
  rw [String.utf8ByteSize_append] at hfits
  refine ⟨?_, ?_⟩
  · rw [toString_join_ofText p hother, String.toList_append, List.mem_append, not_or]
    exact ⟨hno.1, hnull⟩
  · rw [toString_join_ofText p hother, String.utf8ByteSize_append]
    omega

end Path

/-! ## Following names -/

namespace Disk

section Follow

variable {fs fs' : FileSystem} {place q : Location} {name : String} {names : List String}

theorem follow_cons_of_directory (h : fs.entry? place = some .directory)
    (hsize : name.utf8ByteSize ≤ nameLimit) : follow fs place (name :: names)
      = follow fs (if name = ".." then place.dropLast else place ++ [name]) names := by
  simp only [follow, h, beq_iff_eq]
  rw [if_neg (Nat.not_lt.2 hsize)]

/-- A name that is followed is looked up in a directory. -/
theorem follow_cons (h : follow fs place (name :: names) = .ok q) :
    fs.entry? place = some .directory ∧ name.utf8ByteSize ≤ nameLimit
      ∧ follow fs (if name = ".." then place.dropLast else place ++ [name]) names = .ok q := by
  rcases hentry : fs.entry? place with - | bytes | -
  · simp [follow, hentry] at h
  · simp [follow, hentry] at h
  by_cases hsize : name.utf8ByteSize ≤ nameLimit
  · exact ⟨rfl, hsize, by rwa [follow_cons_of_directory hentry hsize] at h⟩
  · simp [follow, hentry, Nat.lt_of_not_le hsize] at h

theorem follow_append {more : List String} (h : follow fs place names = .ok q) :
    follow fs place (names ++ more) = follow fs q more := by
  induction names generalizing place with
  | nil =>
    cases h
    rfl
  | cons name names ih =>
    obtain ⟨hentry, hsize, hrest⟩ := follow_cons h
    rw [List.cons_append, follow_cons_of_directory hentry hsize, ih hrest]

/-- Names that are followed to the end are followed up to each point. -/
theorem follow_of_append {more : List String} (h : follow fs place (names ++ more) = .ok q) :
    ∃ between, follow fs place names = .ok between ∧ follow fs between more = .ok q := by
  induction names generalizing place with
  | nil => exact ⟨place, rfl, h⟩
  | cons name names ih =>
    obtain ⟨hentry, hsize, hrest⟩ := follow_cons h
    rw [follow_cons_of_directory hentry hsize]
    exact ih hrest

theorem follow_mono (hkeeps : fs.KeepsDirectories fs') (h : follow fs place names = .ok q) :
    follow fs' place names = .ok q := by
  induction names generalizing place with
  | nil => exact h
  | cons name names ih =>
    obtain ⟨hentry, hsize, hrest⟩ := follow_cons h
    rw [follow_cons_of_directory (hkeeps _ hentry) hsize]
    exact ih hrest

/-- Names without double dots lead to the same place as long as everything below is the same. -/
theorem follow_congr (h : ∀ q, place <+: q → fs'.entry? q = fs.entry? q)
    (hup : ∀ name ∈ names, name ≠ "..") : follow fs' place names = follow fs place names := by
  induction names generalizing place with
  | nil => rfl
  | cons name names ih =>
    have hname : (name == "..") = false := beq_false_of_ne (hup name (List.mem_cons_self ..))
    have hrest := @ih (place ++ [name]) (fun q hq => h q ((List.prefix_append ..).trans hq))
      fun n hn => hup n (List.mem_cons_of_mem _ hn)
    simp only [follow, h place List.prefix_rfl, hname, Bool.false_eq_true, ↓reduceIte, hrest]

/-- What names lead to is where they settle. -/
theorem eq_settle_of_follow (h : follow fs place names = .ok q) :
    q = (names.foldl Path.settleStep place.reverse).reverse := by
  induction names generalizing place with
  | nil =>
    cases h
    simp
  | cons name names ih =>
    obtain ⟨-, -, hrest⟩ := follow_cons h
    rw [ih hrest, List.foldl_cons, Path.settleStep]
    by_cases hname : name = ".."
    · rw [if_pos hname, if_pos (by simpa using hname), List.drop_one, List.tail_reverse]
    · rw [if_neg hname, if_neg (by simpa using hname), List.reverse_append]
      rfl

/-- What lies above a location are directories. -/
def DirectoriesAbove (fs : FileSystem) (q : Location) : Prop :=
  ∀ above, above <+: q → above ≠ q → fs.entry? above = some .directory

theorem directoriesAbove_nil (fs : FileSystem) : DirectoriesAbove fs [] := by
  intro above habove hne
  exact absurd (List.prefix_nil.1 habove) hne

theorem DirectoriesAbove.mono (hkeeps : fs.KeepsDirectories fs') (h : DirectoriesAbove fs q) :
    DirectoriesAbove fs' q := fun above habove hne => hkeeps _ (h above habove hne)

theorem DirectoriesAbove.dropLast (h : DirectoriesAbove fs q) :
    DirectoriesAbove fs q.dropLast := by
  intro above habove hne
  refine h above (habove.trans (List.dropLast_prefix q)) ?_
  rintro rfl
  have := habove.length_le
  have hnil : above = [] := by
    rw [List.length_dropLast] at this
    exact List.length_eq_zero_iff.1 (by omega)
  exact hne (by rw [hnil]; rfl)

theorem DirectoriesAbove.append (h : DirectoriesAbove fs q) (hq : fs.entry? q = some .directory) :
    DirectoriesAbove fs (q ++ [name]) := by
  intro above habove hne
  rcases List.prefix_concat_iff.1 habove with heq | habove
  · exact absurd heq hne
  · by_cases heq : above = q
    · rw [heq, hq]
    · exact h above habove heq

/-- Names lead by way of directories. -/
theorem directoriesAbove_of_follow (hplace : DirectoriesAbove fs place)
    (h : follow fs place names = .ok q) : DirectoriesAbove fs q := by
  induction names generalizing place with
  | nil =>
    cases h
    exact hplace
  | cons name names ih =>
    obtain ⟨hentry, -, hrest⟩ := follow_cons h
    refine ih ?_ hrest
    split
    · exact hplace.dropLast
    · exact hplace.append hentry

/-- Names without double dots are followed through directories. -/
theorem follow_of_directoriesAbove (h : DirectoriesAbove fs (place ++ names))
    (hsize : ∀ name ∈ names, name.utf8ByteSize ≤ nameLimit) (hup : ∀ name ∈ names, name ≠ "..") :
    follow fs place names = .ok (place ++ names) := by
  induction names generalizing place with
  | nil => rw [List.append_nil]; rfl
  | cons name names ih =>
    have hentry : fs.entry? place = some .directory :=
      h place (List.prefix_append ..) (by simp)
    have hassoc : place ++ name :: names = place ++ [name] ++ names := by simp
    rw [follow_cons_of_directory hentry (hsize name (List.mem_cons_self ..)),
      if_neg (hup name (List.mem_cons_self ..)), hassoc]
    rw [hassoc] at h
    exact ih h (fun n hn => hsize n (List.mem_cons_of_mem _ hn))
      fun n hn => hup n (List.mem_cons_of_mem _ hn)

theorem size_of_follow (h : follow fs place names = .ok q) :
    ∀ name ∈ names, name.utf8ByteSize ≤ nameLimit := by
  induction names generalizing place with
  | nil => simp
  | cons name names ih =>
    obtain ⟨-, hsize, hrest⟩ := follow_cons h
    intro n hn
    rcases List.mem_cons.1 hn with rfl | hn
    · exact hsize
    · exact ih hrest n hn

end Follow

/-! ## Locating paths -/

theorem locate_eq_ok_iff {d : Disk} {p : Path} {q : Location} : d.locate p = .ok q ↔
    p.Askable ∧ follow d.files [] (d.current.join p).parts = .ok q := by
  unfold locate
  dsimp only
  split
  · next hnull =>
    constructor
    · intro h
      cases h
    · intro h
      exact absurd (List.contains_iff_mem.1 hnull) h.1.noNull
  · next hnull =>
    split
    · next hsize =>
      constructor
      · intro h
        cases h
      · intro h
        exact absurd h.1.size (Nat.not_le.2 hsize)
    · next hsize =>
      have hask : p.Askable :=
        ⟨fun hmem => hnull (List.contains_iff_mem.2 hmem), Nat.not_lt.1 hsize⟩
      cases hfollow : follow d.files [] (d.current.join p).parts with
      | error cause => simp [Except.mapError]
      | ok place => simp [Except.mapError, hask]

/-- The current directory is the same, and directories are still directories. -/
structure Continues (d d' : Disk) : Prop where
  current : d'.current = d.current
  keeps : d.files.KeepsDirectories d'.files

namespace Continues

theorem refl (d : Disk) : Continues d d := ⟨rfl, .refl _⟩

theorem trans {d₁ d₂ d₃ : Disk} (h : Continues d₁ d₂) (h' : Continues d₂ d₃) :
    Continues d₁ d₃ := ⟨h'.current.trans h.current, h.keeps.trans h'.keeps⟩

end Continues

variable {d d' : Disk} {p : Path} {q place : Location} {name : String}

theorem locate_mono (hcont : Continues d d') (h : d.locate p = .ok q) : d'.locate p = .ok q := by
  rw [locate_eq_ok_iff] at h ⊢
  rw [hcont.current]
  exact ⟨h.1, follow_mono hcont.keeps h.2⟩

/-- A path leads to its settled location. -/
theorem eq_of_locate (h : d.locate p = .ok q) : q = (p.resolve d.current).parts :=
  eq_settle_of_follow (locate_eq_ok_iff.1 h).2

theorem directoriesAbove_of_locate (h : d.locate p = .ok q) : DirectoriesAbove d.files q :=
  directoriesAbove_of_follow (directoriesAbove_nil _) (locate_eq_ok_iff.1 h).2

/-- A path to an entry of a directory that a path leads to. -/
theorem locate_join (hp : d.locate p = .ok place) (hplace : d.files.entry? place = some .directory)
    (hname : Path.IsName name) (hup : name ≠ "..") (hsize : name.utf8ByteSize ≤ nameLimit)
    (hask : (p.join (.ofText name)).Askable) :
    d.locate (p.join (.ofText name)) = .ok (place ++ [name]) := by
  refine locate_eq_ok_iff.2 ⟨hask, ?_⟩
  rw [Path.parts_join_join_ofText _ _ hname, follow_append (locate_eq_ok_iff.1 hp).2,
    follow_cons_of_directory hplace hsize, if_neg hup]
  rfl

/-- What leads to an entry of a directory leads by way of the directory. -/
theorem of_locate_join (h : d.locate (p.join (.ofText name)) = .ok q) (hname : Path.IsName name)
    (hup : name ≠ "..") : ∃ place, follow d.files [] (d.current.join p).parts = .ok place
      ∧ d.files.entry? place = some .directory ∧ name.utf8ByteSize ≤ nameLimit
      ∧ q = place ++ [name] := by
  have hfollow := (locate_eq_ok_iff.1 h).2
  rw [Path.parts_join_join_ofText _ _ hname] at hfollow
  obtain ⟨place, hplace, hlast⟩ := follow_of_append hfollow
  obtain ⟨hentry, hsize, hrest⟩ := follow_cons hlast
  rw [if_neg hup] at hrest
  cases hrest
  exact ⟨place, hplace, hentry, hsize, rfl⟩

/-- Only a directory is led to by double dots. -/
theorem name_ne_up_of_locate (h : d.locate p = .ok q) (hq : d.files.entry? q ≠ some .directory)
    (hparts : p.parts ≠ []) : p.name ≠ ".." := by
  intro hup
  obtain ⟨before, hbefore⟩ : ∃ before, (d.current.join p).parts = before ++ [p.name] := by
    have hsplit := List.dropLast_append_getLast hparts
    have hname : p.name = p.parts.getLast hparts := by
      rw [Path.name, List.getLast?_eq_some_getLast hparts]
      rfl
    rw [hname]
    unfold Path.join
    split
    · exact ⟨_, hsplit.symm⟩
    · exact ⟨d.current.parts ++ p.parts.dropLast, by rw [List.append_assoc, hsplit]⟩
  have hfollow := (locate_eq_ok_iff.1 h).2
  rw [hbefore, hup] at hfollow
  obtain ⟨between, hbetween, hlast⟩ := follow_of_append hfollow
  obtain ⟨-, -, hrest⟩ := follow_cons hlast
  rw [if_pos rfl] at hrest
  cases hrest
  have habove := directoriesAbove_of_follow (directoriesAbove_nil _) hbetween
  cases hnil : between with
  | nil => exact hq (by rw [hnil]; exact FileSystem.entry?_nil _)
  | cons name names =>
    refine hq (habove _ (List.dropLast_prefix _) fun heq => ?_)
    have hlength := congrArg List.length heq
    rw [hnil, List.length_dropLast, List.length_cons] at hlength
    omega

/-! ## Settled paths -/

/-- The path is absolute and has no double dots, and its directories are there. -/
structure Reachable (d : Disk) (p : Path) : Prop where
  absolute : p.isAbsolute = true
  up : ∀ name ∈ p.parts, name ≠ ".."
  size : ∀ name ∈ p.parts, name.utf8ByteSize ≤ nameLimit
  above : DirectoriesAbove d.files p.parts

namespace Reachable

theorem mono (h : d.Reachable p) (hcont : Continues d d') : d'.Reachable p where
  absolute := h.absolute
  up := h.up
  size := h.size
  above := h.above.mono hcont.keeps

theorem follow (h : d.Reachable p) :
    Disk.follow d.files [] (d.current.join p).parts = .ok p.parts := by
  rw [Path.join, if_pos h.absolute]
  exact @follow_of_directoriesAbove _ [] _ h.above h.size h.up

theorem locate (h : d.Reachable p) (hask : p.Askable) : d.locate p = .ok p.parts :=
  locate_eq_ok_iff.2 ⟨hask, h.follow⟩

/-- Only the length of the path or a null character in it can be refused. -/
theorem locate_ne_missing (h : d.Reachable p) (text : String) :
    d.locate p ≠ .error (.refused .missing text) := by
  unfold Disk.locate
  dsimp only
  split
  · simp
  split
  · simp
  · rw [h.follow]
    simp [Except.mapError]

theorem parent (h : d.Reachable p) : d.Reachable p.parent where
  absolute := h.absolute
  up name hname := h.up name (List.dropLast_subset _ hname)
  size name hname := h.size name (List.dropLast_subset _ hname)
  above := h.above.dropLast

theorem isDirectory_parent (h : d.Reachable p) (hparts : p.parts ≠ []) :
    d.files.entry? p.parent.parts = some .directory := by
  refine h.above _ (List.dropLast_prefix _) fun heq => ?_
  have hlength := congrArg List.length heq
  have := List.length_pos_iff.2 hparts
  rw [Path.parent, List.length_dropLast] at hlength
  omega

end Reachable

/-- Where something is led to, the path without its double dots is reachable. -/
theorem reachable_resolve (h : d.locate p = .ok q) : d.Reachable (p.resolve d.current) := by
  have hq := eq_of_locate h
  refine ⟨rfl, fun name hname => (Path.mem_of_mem_settle hname).2, fun name hname => ?_, ?_⟩
  · exact size_of_follow (locate_eq_ok_iff.1 h).2 name (Path.mem_of_mem_settle hname).1
  · exact hq ▸ directoriesAbove_of_locate h

/-! ## Asking -/

theorem lookUp_eq_ok_iff {entry : Entry} : d.lookUp p = .ok entry ↔
    ∃ q, d.locate p = .ok q ∧ d.files.entry? q = some entry := by
  unfold lookUp
  cases hlocate : d.locate p with
  | error e => simp [bind, Except.bind]
  | ok q => cases hentry : d.files.entry? q <;> simp [bind, Except.bind, hentry, pure, Except.pure,
      throw, throwThe, MonadExceptOf.throw]

theorem lookUp_of_locate {entry : Entry} (h : d.locate p = .ok q)
    (hentry : d.files.entry? q = some entry) : d.lookUp p = .ok entry :=
  lookUp_eq_ok_iff.2 ⟨q, h, hentry⟩

theorem read_eq_ok_iff {bytes : Bytes} : d.read p = .ok bytes ↔
    ∃ q, d.locate p = .ok q ∧ d.files.entry? q = some (.file bytes) := by
  rw [← lookUp_eq_ok_iff]
  unfold read
  rcases d.lookUp p with e | bytes' | -
  · simp [bind, Except.bind]
  · simp [bind, Except.bind, pure, Except.pure]
  · simp [bind, Except.bind, throw, throwThe, MonadExceptOf.throw]

theorem isDirectory_iff : d.isDirectory p = true ↔
    ∃ q, d.locate p = .ok q ∧ d.files.entry? q = some .directory := by
  rw [← lookUp_eq_ok_iff]
  unfold isDirectory
  rcases d.lookUp p with e | bytes' | - <;> simp

theorem isThere_of_lookUp {entry : Entry} (h : d.lookUp p = .ok entry) :
    d.isThere p = .ok true := by
  simp [isThere, find, h, bind, Except.bind, pure, Except.pure]

theorem lookUp_of_isThere (h : d.isThere p = .ok true) : ∃ entry, d.lookUp p = .ok entry := by
  unfold isThere find at h
  rcases hlook : d.lookUp p with e | entry
  · rw [hlook] at h
    cases e with
    | refused cause text => cases cause <;> simp [bind, Except.bind, pure, Except.pure] at h
    | refusedMove | sameFile | nullCharacter =>
      simp [bind, Except.bind, pure, Except.pure] at h
  · exact ⟨entry, rfl⟩

/-- Whether something is there can be said only of a path that is not too long. -/
theorem askable_of_isThere {there : Bool} (hnull : '\x00' ∉ (toString p).toList)
    (h : d.isThere p = .ok there) : p.Askable := by
  refine ⟨hnull, Nat.not_lt.1 fun hlong => ?_⟩
  have hno : (toString p).toList.contains '\x00' = false := by
    rwa [← Bool.not_eq_true, List.contains_iff_mem]
  have hrefused : d.locate p = .error (.refused .nameTooLong (toString p)) := by
    unfold locate
    simp only [hno]
    rw [if_neg Bool.false_ne_true, if_pos hlong]
  simp [isThere, find, lookUp, hrefused, bind, Except.bind] at h

/-- A file is not the same as what lies at another place. -/
theorem isSame_of_locate {source target : Path} {a b : Location} {bytes : Bytes}
    (hread : d.read source = .ok bytes) (hsource : d.locate source = .ok a)
    (htarget : d.locate target = .ok b) (hne : a ≠ b) : d.isSame source target = .ok false := by
  obtain ⟨a', ha', hentry⟩ := read_eq_ok_iff.1 hread
  have hlook : d.lookUp source = .ok (.file bytes) := lookUp_of_locate ha' hentry
  have hlook' : d.lookUp target ≠ .error .nullCharacter := by
    simp only [lookUp, htarget, bind, Except.bind]
    cases d.files.entry? b <;> simp [throw, throwThe, MonadExceptOf.throw, pure, Except.pure]
  unfold isSame
  rw [hlook]
  cases htarget' : d.lookUp target with
  | error e => cases e <;> simp_all
  | ok entry => simp [hsource, htarget, hne, bind, Except.bind, pure, Except.pure]

end Disk

end SuperForward.Files
