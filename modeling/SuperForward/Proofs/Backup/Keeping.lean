/-
  What stays true of a store and of the files that were backed up.

  A store is safe if its manifest and its copies are in place, if a file that was backed up can
  be written again without touching the manifest, the draft or another copy, and if nothing is
  yet where the copies with new ids will be. Each change that a store makes keeps it safe, and
  so do changes made by others elsewhere.
-/
import SuperForward.Proofs.Backup.Ledger

namespace SuperForward.Backup

open SuperForward.Files (Path Disk Action Location Entry FileSystem Change)
open SuperForward.Json (Value)
open SuperForward.Text (Bytes)

namespace Store

variable {s : Store} {d d' : Disk} {id id' : String} {ids ids' : List String} {kept : List Kept}
  {k k' : Kept} {path : Path} {q : Location}

/-! ## Copies -/

theorem copiesPlace_isPrefix_copyPlace : s.copiesPlace d id <+: s.copyPlace d id path :=
  List.prefix_append ..

/-- What lies below a directory of copies belongs to one id. -/
theorem eq_of_copiesPlace_isPrefix (h : s.copiesPlace d id <+: q) (h' : s.copiesPlace d id' <+: q) :
    id = id' := by
  have heq := (List.prefix_of_prefix_length_le h h' (by simp [copiesPlace])).eq_of_length
    (by simp [copiesPlace])
  exact (List.cons.inj (List.append_cancel_left heq)).1

/-- The copy is in the store where its record says, and has the bytes of the ledger. -/
structure Stored (s : Store) (d : Disk) (k : Kept) : Prop where
  isName : Path.IsName k.copy.name
  path : s.copyPath k.record.id k.copy = k.copy
  located : d.locate k.copy = .ok (s.copyPlace d k.record.id k.copy)
  entry : d.files.entry? (s.copyPlace d k.record.id k.copy) = some (.file k.bytes)

namespace Stored

theorem read (h : s.Stored d k) : d.read k.copy = .ok k.bytes :=
  Disk.read_eq_ok_iff.2 ⟨_, h.located, h.entry⟩

theorem mono (h : s.Stored d k) (hcont : Disk.Continues d d')
    (hentry : d'.files.entry? (s.copyPlace d k.record.id k.copy) = some (.file k.bytes)) :
    s.Stored d' k where
  isName := h.isName
  path := h.path
  located := by
    rw [copyPlace_of_current hcont.current]
    exact Disk.locate_mono hcont h.located
  entry := by
    rw [copyPlace_of_current hcont.current]
    exact hentry

/-- A copy is led to by way of the directory of the store, so it stays where it is as long as
that directory does. -/
theorem elsewhere (h : s.Stored d k) (hid : Stamp.IsId k.record.id) (hp : s.Placed d)
    (he : s.Elsewhere kept d d') : s.Stored d' k where
  isName := h.isName
  path := h.path
  located := by
    obtain ⟨hask, hfollow⟩ := Disk.locate_eq_ok_iff.1 h.located
    have hup : k.copy.name ≠ ".." := by
      have hmem : k.copy.name ∈ (k.copy.resolve d.current).parts := by
        rw [← Disk.eq_of_locate h.located]
        simp [copyPlace]
      exact (Path.mem_of_mem_settle hmem).2
    have hparts : ∀ current : Path, (current.join k.copy).parts
        = (current.join s.directory).parts ++ [k.record.id, k.copy.name] := by
      intro current
      have hpath : (current.join (s.copyPath k.record.id k.copy)).parts
          = (current.join s.directory).parts ++ [k.record.id, k.copy.name] := by
        rw [copyPath, Path.parts_join_join_ofText _ _ h.isName, below,
          Path.parts_join_join_ofText _ _ hid.isName, List.append_assoc]
        rfl
      rwa [h.path] at hpath
    refine Disk.locate_eq_ok_iff.2 ⟨hask, ?_⟩
    have hlocated := he.located.trans hp.located
    rw [hparts, Disk.follow_append (Disk.locate_eq_ok_iff.1 hp.located).2] at hfollow
    rw [hparts, Disk.follow_append (Disk.locate_eq_ok_iff.1 hlocated).2,
      Disk.follow_congr he.inside, hfollow, copyPlace_of_current he.current]
    intro name hname
    rcases List.mem_cons.1 hname with rfl | hname
    · exact hid.ne (by decide)
    · rw [List.mem_singleton.1 hname]
      exact hup
  entry := by
    rw [copyPlace_of_current he.current, he.inside _ ?_, h.entry]
    exact (List.prefix_append ..).trans copiesPlace_isPrefix_copyPlace

/-- The manifest is not among the copies. -/
theorem writing (h : s.Stored d k) (manifest : Value)
    (hmanifest : d.files.entry? (s.manifestPlace d) ≠ some .directory)
    (hdraft : d.files.entry? (s.draftPlace d) ≠ some .directory) :
    s.Stored (d.after (s.writing d manifest)) k := by
  refine h.mono (continues_writing hmanifest hdraft) ?_
  rw [entry?_writing, if_neg, if_neg, h.entry]
  · simp [copyPlace, copiesPlace, draftPlace]
  · simp [copyPlace, copiesPlace, manifestPlace]

end Stored

/-! ## The manifest and the free places -/

/-- The manifest of a store is in its place, and nothing is where the draft and the copies with
new ids will be. -/
structure InOrder (s : Store) (d : Disk) (ids : List String) : Prop where
  current : d.current.Proper
  placed : s.Placed d
  manifest : ∃ bytes, d.files.entry? (s.manifestPlace d) = some (.file bytes)
  draft : d.files.entry? (s.draftPlace d) = none
  unused : ∀ id, Stamp.IsId id → id ∉ ids → ∀ q, s.copiesPlace d id <+: q →
    d.files.entry? q = none

namespace InOrder

theorem manifest_ne_directory (h : s.InOrder d ids) :
    d.files.entry? (s.manifestPlace d) ≠ some .directory := by
  obtain ⟨bytes, hfile⟩ := h.manifest
  rw [hfile]
  simp

theorem draft_ne_directory (h : s.InOrder d ids) :
    d.files.entry? (s.draftPlace d) ≠ some .directory := by
  rw [h.draft]
  simp

/-- What counts is what is in the places of the store. -/
theorem mono (h : s.InOrder d ids) (hcont : Disk.Continues d d')
    (hmanifest : ∃ bytes, d'.files.entry? (s.manifestPlace d) = some (.file bytes))
    (hdraft : d'.files.entry? (s.draftPlace d) = none)
    (hunused : ∀ id, Stamp.IsId id → id ∉ ids' → ∀ q, s.copiesPlace d id <+: q →
      d'.files.entry? q = none) : s.InOrder d' ids' where
  current := by rw [hcont.current]; exact h.current
  placed := h.placed.mono hcont
  manifest := by rwa [manifestPlace_of_current hcont.current]
  draft := by rwa [draftPlace_of_current hcont.current]
  unused id hid hnew q hq := hunused id hid hnew q (copiesPlace_of_current hcont.current ▸ hq)

/-- Something is done below the directory for the copies with a new id. -/
theorem onlyBelow (h : s.InOrder d ids) (hid : Stamp.IsId id) (honly : s.OnlyBelow id d d') :
    s.InOrder d' (id :: ids) := by
  refine h.mono honly.continues ?_ ?_ fun id' hid' hnew' q hq => ?_
  · rw [honly.elsewhere _ (not_copiesPlace_isPrefix_manifest hid)]
    exact h.manifest
  · rw [honly.elsewhere _ (not_copiesPlace_isPrefix_draft hid)]
    exact h.draft
  · rw [List.mem_cons, not_or] at hnew'
    rw [honly.elsewhere q fun hq' => hnew'.1 (eq_of_copiesPlace_isPrefix hq hq')]
    exact h.unused id' hid' hnew'.2 q hq

/-- A manifest is written. -/
theorem writing (h : s.InOrder d ids) (manifest : Value) :
    s.InOrder (d.after (s.writing d manifest)) ids := by
  refine h.mono (continues_writing h.manifest_ne_directory h.draft_ne_directory) ?_ ?_
    fun id hid hnew q hq => ?_
  · exact ⟨Manifest.written manifest, by rw [entry?_writing, if_pos rfl]⟩
  · rw [entry?_writing, if_neg (manifestPlace_ne_draftPlace s d).symm, if_pos rfl]
  · rw [entry?_writing, if_neg, if_neg, h.unused id hid hnew q hq]
    · rintro rfl
      exact not_copiesPlace_isPrefix_draft hid hq
    · rintro rfl
      exact not_copiesPlace_isPrefix_manifest hid hq

end InOrder

/-! ## Files that were backed up -/

/-- The file of a settled path can be written, once the directories above it are there. -/
structure Writable (d : Disk) (p : Path) : Prop where
  settled : p.Settled
  notDirectory : d.files.entry? p.parts ≠ some .directory
  noFileAbove : d.files.NoFileAbove p.parts

theorem Writable.parts_ne_nil {p : Path} (h : Writable d p) : p.parts ≠ [] :=
  FileSystem.ne_nil_of_not_directory h.notDirectory

theorem Writable.not_isPrefix_parent {p : Path} (h : Writable d p) : ¬ p.parts <+: p.parent.parts := by
  intro hbegin
  have hlength := hbegin.length_le
  have hpos := List.length_pos_iff.2 h.parts_ne_nil
  rw [Path.parent, List.length_dropLast] at hlength
  omega

/-- The directories above such a file can be made. -/
theorem Writable.exists_outcome_parent {p : Path} (h : Writable d p) (hask : p.Askable) :
    ∃ d', (Action.ensureDirectories p.parent).outcome d = (.ok (), d') := by
  refine Action.exists_outcome_ensureDirectories h.settled.parent
    (hask.parent h.settled.absolute h.parts_ne_nil) fun q hq => ?_
  refine h.noFileAbove q (hq.trans (List.dropLast_prefix _)) ?_
  rintro rfl
  exact h.not_isPrefix_parent hq

/-- An entry of a ledger goes with the places of the store: its file is not the manifest, and
does not lie where the draft, its own copy or the copies with a new id will be. -/
structure Apart (s : Store) (d : Disk) (ids : List String) (k : Kept) : Prop where
  isId : Stamp.IsId k.record.id
  used : k.record.id ∈ ids
  formed : k.record.Formed
  manifest : k.source.parts ≠ s.manifestPlace d
  draft : ¬ s.draftPlace d <+: k.source.parts
  unused : ∀ id, Stamp.IsId id → id ∉ ids → ¬ s.copiesPlace d id <+: k.source.parts
  own : ¬ s.copiesPlace d k.record.id <+: k.source.parts

theorem Apart.mono (h : s.Apart d ids k) (hcurrent : d'.current = d.current)
    (hids : ∀ id ∈ ids, id ∈ ids') : s.Apart d' ids' k where
  isId := h.isId
  used := hids _ h.used
  formed := h.formed
  manifest := by
    rw [manifestPlace_of_current hcurrent]
    exact h.manifest
  draft := by
    rw [draftPlace_of_current hcurrent]
    exact h.draft
  unused id hid hnew := by
    rw [copiesPlace_of_current hcurrent]
    exact h.unused id hid fun hmem => hnew (hids id hmem)
  own := by
    rw [copiesPlace_of_current hcurrent]
    exact h.own

/-- The entries of a ledger go with the store and with each other: a file that is a copy itself
has the bytes of that copy, and no file lies below another one. -/
structure Consistent (s : Store) (d : Disk) (ids : List String) (kept : List Kept) : Prop where
  nodup : (kept.map fun k => k.record.id).Nodup
  apart : ∀ k ∈ kept, s.Apart d ids k
  same : ∀ k ∈ kept, ∀ k' ∈ kept, k.source.parts = s.copyPlace d k'.record.id k'.copy →
    k.bytes = k'.bytes
  level : ∀ k ∈ kept, ∀ k' ∈ kept, k.source.parts <+: k'.source.parts →
    k.source.parts = k'.source.parts

theorem Consistent.mono (h : s.Consistent d ids kept) (hcurrent : d'.current = d.current)
    (hids : ∀ id ∈ ids, id ∈ ids') : s.Consistent d' ids' kept where
  nodup := h.nodup
  apart k hk := (h.apart k hk).mono hcurrent hids
  same k hk k' hk' := by
    rw [copyPlace_of_current hcurrent]
    exact h.same k hk k' hk'
  level := h.level

/-- The store is in order, and so are the files of its ledger. -/
structure Safe (s : Store) (d : Disk) (ids : List String) (kept : List Kept) : Prop where
  current : d.current.Proper
  placed : s.Placed d
  manifest : ∃ bytes, d.files.entry? (s.manifestPlace d) = some (.file bytes)
  draft : d.files.entry? (s.draftPlace d) = none
  unused : ∀ id, Stamp.IsId id → id ∉ ids → ∀ q, s.copiesPlace d id <+: q →
    d.files.entry? q = none
  consistent : s.Consistent d ids kept
  stored : ∀ k ∈ kept, s.Stored d k
  writable : ∀ k ∈ kept, Writable d k.source

namespace Safe

theorem inOrder (h : s.Safe d ids kept) : s.InOrder d ids :=
  ⟨h.current, h.placed, h.manifest, h.draft, h.unused⟩

theorem manifest_ne_directory (h : s.Safe d ids kept) :
    d.files.entry? (s.manifestPlace d) ≠ some .directory := h.inOrder.manifest_ne_directory

theorem draft_ne_directory (h : s.Safe d ids kept) :
    d.files.entry? (s.draftPlace d) ≠ some .directory := h.inOrder.draft_ne_directory

/-! ## Changes of the store -/

/-- The directories above a file are made. -/
theorem made {r : Except Files.Error Unit} (h : s.Safe d ids kept) (hk : k ∈ kept)
    (hmade : (Action.ensureDirectories k.source.parent).outcome d = (r, d')) :
    s.Safe d' ids kept := by
  obtain ⟨hwide, -⟩ := Action.widened_ensureDirectories hmade
  -- only directories above the file are new, and nothing of the store lies above it
  have hnew : ∀ q, ¬ q <+: k.source.parent.parts → d'.files.entry? q = d.files.entry? q :=
    fun q hq => by_contra fun hne => hq
      (Action.isPrefix_of_ensureDirectories (h.writable k hk).settled.parent hmade hne)
  have habove : ∀ {q}, q <+: k.source.parent.parts → q <+: k.source.parts :=
    fun hq => hq.trans (List.dropLast_prefix _)
  have horder : s.InOrder d' ids := by
    refine h.inOrder.mono hwide.continues ?_ ?_ fun id hid hnew' q hq => ?_
    · obtain ⟨bytes, hfile⟩ := h.manifest
      exact ⟨bytes, hwide.entry_file.2 hfile⟩
    · rw [hnew _ fun hq => (h.consistent.apart k hk).draft (habove hq), h.draft]
    · rw [hnew q fun hbegin => (h.consistent.apart k hk).unused id hid hnew'
        (hq.trans (habove hbegin))]
      exact h.unused id hid hnew' q hq
  exact { horder with
    consistent := h.consistent.mono hwide.current fun _ hmem => hmem
    stored := fun k' hk' => (h.stored k' hk').mono hwide.continues
      (hwide.entry_file.2 (h.stored k' hk').entry)
    writable := fun k' hk' => {
      settled := (h.writable k' hk').settled
      notDirectory := by
        rw [hnew]
        · exact (h.writable k' hk').notDirectory
        · intro hq
          have heq := h.consistent.level k' hk' k hk (habove hq)
          exact (h.writable k hk).not_isPrefix_parent (heq ▸ hq)
      noFileAbove := fun q hq hne bytes hfile =>
        (h.writable k' hk').noFileAbove q hq hne bytes (hwide.entry_file.1 hfile) } }

/-- Something is done below the directory for the copies with a new id. -/
theorem onlyBelow (h : s.Safe d ids kept) (hid : Stamp.IsId id) (hnew : id ∉ ids)
    (honly : s.OnlyBelow id d d') : s.Safe d' (id :: ids) kept :=
  { h.inOrder.onlyBelow hid honly with
    consistent := h.consistent.mono honly.continues.current
      fun _ hmem => List.mem_cons_of_mem _ hmem
    stored := fun k hk => (h.stored k hk).mono honly.continues (by
      rw [honly.elsewhere _ fun hq => hnew
        (eq_of_copiesPlace_isPrefix hq copiesPlace_isPrefix_copyPlace ▸ (h.consistent.apart k hk).used)]
      exact (h.stored k hk).entry)
    writable := fun k hk => {
      settled := (h.writable k hk).settled
      notDirectory := by
        rw [honly.elsewhere _ ((h.consistent.apart k hk).unused id hid hnew)]
        exact (h.writable k hk).notDirectory
      noFileAbove := fun q hq hne bytes hfile => by
        rw [honly.elsewhere q fun hq' => (h.consistent.apart k hk).unused id hid hnew (hq'.trans hq)]
          at hfile
        exact (h.writable k hk).noFileAbove q hq hne bytes hfile } }

/-- A file gets its bytes again. -/
theorem rewritten (h : s.Safe d ids kept) (hk : k ∈ kept) :
    s.Safe (d.after [.writeFile k.source.parts k.bytes]) ids kept := by
  have hcont : Disk.Continues d (d.after [.writeFile k.source.parts k.bytes]) :=
    ⟨rfl, Change.keepsDirectories_writeFile (h.writable k hk).notDirectory⟩
  have hentry : ∀ q, (d.after [.writeFile k.source.parts k.bytes]).files.entry? q
      = if q = k.source.parts then some (.file k.bytes) else d.files.entry? q :=
    fun q => FileSystem.entry?_put (h.writable k hk).parts_ne_nil
  have hother : ∀ q, q ≠ k.source.parts →
      (d.after [.writeFile k.source.parts k.bytes]).files.entry? q = d.files.entry? q :=
    fun q hq => by rw [hentry, if_neg hq]
  have horder : s.InOrder (d.after [.writeFile k.source.parts k.bytes]) ids := by
    refine h.inOrder.mono hcont ?_ ?_ fun id hid hnew q hq => ?_
    · rw [hother _ (h.consistent.apart k hk).manifest.symm]
      exact h.manifest
    · rw [hother, h.draft]
      intro heq
      exact (h.consistent.apart k hk).draft (heq ▸ List.prefix_rfl)
    · rw [hother q]
      · exact h.unused id hid hnew q hq
      · rintro rfl
        exact (h.consistent.apart k hk).unused id hid hnew hq
  exact { horder with
    consistent := h.consistent.mono hcont.current fun _ hmem => hmem
    -- a copy may have been backed up itself: then its entry has the bytes of the copy
    stored := fun k' hk' => (h.stored k' hk').mono hcont (by
      rw [hentry]
      split
      · next heq => rw [h.consistent.same k hk k' hk' heq.symm]
      · exact (h.stored k' hk').entry)
    writable := fun k' hk' => {
      settled := (h.writable k' hk').settled
      notDirectory := by
        rw [hentry]
        split
        · simp
        · exact (h.writable k' hk').notDirectory
      -- sources are on one level, so no file comes to lie above another source
      noFileAbove := fun q hq hne bytes hfile => by
        rw [hother q] at hfile
        · exact (h.writable k' hk').noFileAbove q hq hne bytes hfile
        · rintro rfl
          exact hne (h.consistent.level k hk k' hk' hq) } }

/-- A manifest is written. -/
theorem listed (h : s.Safe d ids kept) (manifest : Value) :
    s.Safe (d.after (s.writing d manifest)) ids kept := by
  have hcont := @continues_writing s d manifest h.manifest_ne_directory h.draft_ne_directory
  have hother : ∀ q, q ≠ s.manifestPlace d → q ≠ s.draftPlace d →
      (d.after (s.writing d manifest)).files.entry? q = d.files.entry? q :=
    fun q hq hq' => by rw [entry?_writing, if_neg hq, if_neg hq']
  exact { h.inOrder.writing manifest with
    consistent := h.consistent.mono hcont.current fun _ hmem => hmem
    stored := fun k hk =>
      (h.stored k hk).writing manifest h.manifest_ne_directory h.draft_ne_directory
    writable := fun k hk => {
      settled := (h.writable k hk).settled
      notDirectory := by
        rw [entry?_writing, if_neg (h.consistent.apart k hk).manifest]
        split
        · simp
        · exact (h.writable k hk).notDirectory
      noFileAbove := fun q hq hne bytes hfile => by
        have hmanifest : q ≠ s.manifestPlace d := by
          rintro rfl
          obtain ⟨bytes', hfile'⟩ := h.manifest
          exact (h.writable k hk).noFileAbove _ hq hne bytes' hfile'
        have hdraft : q ≠ s.draftPlace d := by
          rintro rfl
          exact (h.consistent.apart k hk).draft hq
        rw [hother q hmanifest hdraft] at hfile
        exact (h.writable k hk).noFileAbove q hq hne bytes hfile } }

/-! ## Changes of others -/

theorem elsewhere (h : s.Safe d ids kept) (he : s.Elsewhere kept d d') : s.Safe d' ids kept := by
  have hbelow : ∀ names, d'.files.entry? (s.place d ++ names) = d.files.entry? (s.place d ++ names) :=
    fun names => he.inside _ (List.prefix_append ..)
  exact {
    current := by rw [he.current]; exact h.current
    placed := {
      proper := h.placed.proper
      located := by rw [he.located, h.placed.located, place_of_current he.current]
      directory := by rw [place_of_current he.current, he.inside _ List.prefix_rfl, h.placed.directory]
      fits := h.placed.fits }
    manifest := by
      rw [manifestPlace_of_current he.current, manifestPlace, hbelow]
      exact h.manifest
    draft := by
      rw [draftPlace_of_current he.current, draftPlace, hbelow]
      exact h.draft
    unused := fun id hid hnew q hq => by
      rw [copiesPlace_of_current he.current] at hq
      rw [he.inside q ((List.prefix_append ..).trans hq)]
      exact h.unused id hid hnew q hq
    consistent := h.consistent.mono he.current fun _ hmem => hmem
    stored := fun k hk => (h.stored k hk).elsewhere (h.consistent.apart k hk).isId h.placed he
    writable := fun k hk =>
      ⟨(h.writable k hk).settled, he.notDirectory k hk, he.noFileAbove k hk⟩ }

/-- Others lock files, or let go of them. -/
theorem elsewhere_alike (h : s.Safe d ids kept) (ha : Disk.Alike d d') :
    s.Elsewhere kept d d' where
  current := ha.current
  located := by rw [Disk.locate_mono ha.continues h.placed.located, h.placed.located]
  inside q _ := ha.entry q
  notDirectory k hk := by
    rw [ha.entry]
    exact (h.writable k hk).notDirectory
  noFileAbove k hk q hq hne bytes := by
    rw [ha.entry]
    exact (h.writable k hk).noFileAbove q hq hne bytes

theorem alike (h : s.Safe d ids kept) (ha : Disk.Alike d d') : s.Safe d' ids kept :=
  h.elsewhere (h.elsewhere_alike ha)

/-- The copy of an entry is written over its file. -/
theorem recopied (h : s.Safe d ids kept) (hk : k ∈ kept) :
    s.Safe (d.after (Action.copied d k.copy k.source.parts k.bytes)) ids kept :=
  (h.rewritten hk).alike (Action.alike_copied d k.copy k.source.parts k.bytes)

/-- Others write a file that is not in the store, and not above a file that was backed up. -/
theorem elsewhere_put {bytes : Bytes} (h : s.Safe d ids kept)
    (hplace : d.files.entry? q ≠ some .directory) (hout : ¬ s.place d <+: q)
    (habove : ∀ k ∈ kept, q <+: k.source.parts → q = k.source.parts)
    (hcurrent : d'.current = d.current) (hfiles : d'.files = d.files.put q (.file bytes)) :
    s.Elsewhere kept d d' := by
  have hentry : ∀ q', d'.files.entry? q'
      = if q' = q then some (.file bytes) else d.files.entry? q' := fun q' => by
    rw [hfiles, FileSystem.entry?_put (FileSystem.ne_nil_of_not_directory hplace)]
  have hcont : Disk.Continues d d' := by
    refine ⟨hcurrent, fun q' hdir => ?_⟩
    rw [hentry, if_neg, hdir]
    rintro rfl
    exact hplace hdir
  exact {
    current := hcurrent
    located := by rw [Disk.locate_mono hcont h.placed.located, h.placed.located]
    inside := fun q' hq' => by
      refine (hentry q').trans (if_neg ?_)
      rintro rfl
      exact hout hq'
    notDirectory := fun k hk => by
      rw [hentry]
      split
      · simp
      · exact (h.writable k hk).notDirectory
    noFileAbove := fun k hk q' hq' hne bytes' hfile' => by
      rw [hentry] at hfile'
      split at hfile'
      · next heq => exact hne (heq ▸ habove k hk (heq ▸ hq'))
      · exact (h.writable k hk).noFileAbove q' hq' hne bytes' hfile' }

end Safe

end Store

end SuperForward.Backup
