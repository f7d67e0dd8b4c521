/-
  Which files of a project are cut, and what is left of them.

  The scripts of a project are found below its directory, and none of them lies in the trash. A
  method that is removed stands in one of them, which can be read as a text; without its removed
  methods the text is shorter.
-/
import SuperForward.Project
import SuperForward.Proofs.Files.Places
import SuperForward.Proofs.Forward.Recording
import SuperForward.Proofs.Pruned
import SuperForward.Proofs.Text.Outside
import SuperForward.Proofs.Text.Utf8

namespace SuperForward

open SuperForward.Files (Path Disk Location FileSystem)
open SuperForward.Text (Bytes removeSpans)

/-! ## Names -/

/-- The names in the file system can be parts of paths, and none of them is a double dot. -/
def Files.FileSystem.Named (fs : FileSystem) : Prop :=
  ∀ place ∈ fs.entries.keys, ∀ name ∈ place, Path.IsName name ∧ name ≠ ".."

theorem Files.FileSystem.Named.of_mem_namesIn {fs : FileSystem} (h : fs.Named)
    {directory : Location} {name : String} (hname : name ∈ fs.namesIn directory) :
    Path.IsName name ∧ name ≠ ".." := by
  obtain ⟨place, hplace, hlast⟩ := List.mem_filterMap.1 hname
  split at hlast
  · exact h place hplace name (List.mem_of_getLast? hlast)
  · cases hlast

/-- The path is absolute, with one slash, and its parts are names without double dots. -/
structure Files.Path.Clean (p : Path) : Prop where
  anchor : p.anchor = .slash
  proper : p.Proper
  up : ∀ name ∈ p.parts, name ≠ ".."

namespace Files.Path

theorem Clean.resolve_eq {p current : Path} (h : p.Clean) : p.resolve current = p := by
  obtain ⟨anchor, parts⟩ := p
  obtain rfl : anchor = .slash := h.anchor
  exact congrArg (Path.mk .slash) (settle_of_forall_ne h.up)

theorem Clean.eq_of_parts {p q : Path} (h : p.Clean) (h' : q.Clean) (heq : p.parts = q.parts) :
    p = q := by
  obtain ⟨anchor, parts⟩ := p
  obtain ⟨anchor', parts'⟩ := q
  obtain rfl : anchor = .slash := h.anchor
  obtain rfl : anchor' = .slash := h'.anchor
  exact congrArg (Path.mk .slash) heq

theorem clean_resolve {p current : Path} (hp : p.Proper) (hcurrent : current.Proper) :
    (p.resolve current).Clean where
  anchor := rfl
  proper := hp.resolve hcurrent
  up _ hname := (mem_of_mem_settle hname).2

end Files.Path

namespace Project

variable {d : Disk} {files : List Path} {path : Path}

/-! ## Scripts that are found -/

theorem named_of_mem_below (h : d.files.Named) {depth : Nat} {place names : Location}
    (hmem : names ∈ below d depth place) : ∀ name ∈ names, Path.IsName name ∧ name ≠ ".." := by
  induction depth generalizing place names with
  | zero => exact absurd hmem List.not_mem_nil
  | succ depth ih =>
    obtain ⟨name, hname, hmem⟩ := List.mem_flatMap.1 hmem
    have hfirst := h.of_mem_namesIn hname
    rcases List.mem_cons.1 hmem with rfl | hmem
    · exact List.forall_mem_singleton.2 hfirst
    split at hmem
    · obtain ⟨rest, hrest, rfl⟩ := List.mem_map.1 hmem
      exact List.forall_mem_cons.2 ⟨hfirst, ih hrest⟩
    · exact absurd hmem List.not_mem_nil

theorem clean_of_mem_pathsBelow {directory : Path} {paths : List Path} (hnamed : d.files.Named)
    (hdirectory : directory.Clean) (h : pathsBelow d directory = .ok paths) (hpath : path ∈ paths) :
    path.Clean := by
  unfold pathsBelow at h
  cases hfind : d.find directory with
  | error e =>
    rw [hfind] at h
    cases h
  | ok found =>
    rw [hfind] at h
    rcases found with - | bytes | -
    · cases h
      cases hpath
    · cases h
      cases hpath
    · cases hplace : d.locate directory with
      | error e =>
        simp only [hplace, bind, Except.bind] at h
        cases h
      | ok place =>
        simp only [hplace, bind, Except.bind] at h
        cases h
        obtain ⟨names, hnames, rfl⟩ := List.mem_map.1 hpath
        have hnamed := named_of_mem_below hnamed hnames
        exact {
          anchor := hdirectory.anchor
          proper := List.forall_mem_append.2
            ⟨hdirectory.proper, fun name hname => (hnamed name hname).1⟩
          up := List.forall_mem_append.2 ⟨hdirectory.up, fun name hname => (hnamed name hname).2⟩ }

/-- A script of a project is not in the trash. -/
theorem of_mem_discover {project trash : Path} {excluded : List String} (hnamed : d.files.Named)
    (hproject : project.Clean) (h : discover d project excluded (some trash) = .ok files)
    (hpath : path ∈ files) : path.Clean ∧ ¬ (trash.resolve d.current).parts <+: path.parts := by
  unfold discover at h
  cases htrash : d.resolve trash with
  | error e =>
    simp only [htrash, Option.mapM_some] at h
    cases h
  | ok resolved =>
    have hresolved : resolved = trash.resolve d.current := by
      unfold Disk.resolve at htrash
      split at htrash <;> cases htrash
      rfl
    cases hbelow : pathsBelow d project with
    | error e =>
      simp only [htrash, hbelow, Option.mapM_some, bind, Except.bind] at h
      cases h
    | ok paths =>
      simp only [htrash, hbelow, Option.mapM_some, bind, Except.bind] at h
      cases h
      obtain ⟨hpath, hincluded⟩ := List.mem_filter.1 (StableSort.mem_sortBy.1 hpath)
      have hclean := clean_of_mem_pathsBelow hnamed hproject hbelow hpath
      refine ⟨hclean, fun hbegin => ?_⟩
      have hwithin : path.isWithin resolved = true := by
        rw [Path.isWithin, Path.relativeTo?, if_pos]
        · rfl
        · rw [hclean.anchor, hresolved, List.isPrefixOf_iff_prefix.2 hbegin]
          rfl
      simp [isIncluded, hclean.resolve_eq, hwithin] at hincluded

/-! ## Files with removed methods -/

/-- The scripts that can be read as texts, as sources. -/
def sourcesOf (d : Disk) (files : List Path) : List Source :=
  files.filterMap fun path => match textOf d path with
    | .ok text => some ⟨toString path, text⟩
    | .error _ => none

theorem fst_addFiles (d : Disk) (p : Program) (files : List Path) :
    (addFiles d p files).1 = (p.addSources (sourcesOf d files)).1 := by
  induction files generalizing p with
  | nil => rfl
  | cons path files ih =>
    cases htext : textOf d path with
    | error e =>
      simp only [addFiles, sourcesOf, List.filterMap_cons, htext]
      exact ih p
    | ok text =>
      simp only [addFiles, sourcesOf, List.filterMap_cons, htext, Program.addSources]
      rcases p.addText (toString path) text with refusal | ⟨q, script⟩
      · exact ih p
      · exact ih q

theorem textOf_eq_ok_iff {text : String} : textOf d path = .ok text ↔
    ∃ bytes, d.read path = .ok bytes ∧ Text.Utf8.decode bytes = .ok text := by
  unfold textOf
  cases d.read path with
  | error e => simp
  | ok bytes => cases hdecode : Text.Utf8.decode bytes <;> simp [hdecode, Except.mapError]

/-- Where all scripts are texts, they are read as the sources of a program. -/
theorem addFiles_of_texts (p : Program) (h : ∀ path ∈ files, ∃ text, textOf d path = .ok text) :
    addFiles d p files = p.addSources (sourcesOf d files) := by
  induction files generalizing p with
  | nil => rfl
  | cons path files ih =>
    rw [List.forall_mem_cons] at h
    obtain ⟨⟨text, htext⟩, hrest⟩ := h
    simp only [addFiles, sourcesOf, List.filterMap_cons, htext, Program.addSources]
    rcases p.addText (toString path) text with refusal | ⟨q, script⟩
    · simp only [ih p hrest]
      rfl
    · exact ih q hrest

/-- What is left of the text of a file when its removed methods are cut out of it. -/
def LeftOf (d : Disk) (path : Path) (removed : List Removed) (left : String) : Prop :=
  ∃ bytes text count, d.read path = .ok bytes ∧ Text.Utf8.decode bytes = .ok text
    ∧ removeSpans text (removed.map Removed.span) = .ok (left, count) ∧ left.length < text.length

/-- A removed method is a part of a source, which has something in it. -/
theorem exists_source_of_removed {sources : List Source} {tags : List String} {a : Analysis}
    (h : Analysis.ofProgram (Program.ofSources sources).1 tags = .ok a) {r : Removed}
    (hr : r ∈ a.removed) :
    ∃ s ∈ sources, r.path = some s.path ∧ r.start < r.stop ∧ r.stop ≤ s.text.length := by
  obtain ⟨taken, hanalysed⟩ := exists_analysed h
  obtain ⟨t, ht, hdescribe⟩ := Program.forall₂_exists_of_mem hanalysed.recorded.flip hr
  obtain ⟨source, script, statements, x, hx⟩ := hanalysed.exists_recordsStatement ht hdescribe
  have hsolid := hx.passage.2.1
  refine ⟨source, hx.mem, hx.path, hsolid.start_lt, ?_⟩
  rw [← String.length_toList]
  exact hsolid.stop_le

/-- A removed method stands in a script that can be read. -/
theorem exists_file_of_removed {findings : Findings} {exclusions : List String}
    (h : analyse d files exclusions = .ok findings) {r : Removed}
    (hr : r ∈ findings.analysis.removed) :
    ∃ path ∈ files, ∃ text, textOf d path = .ok text ∧ r.path = some (toString path)
      ∧ r.start < r.stop ∧ r.stop ≤ text.length := by
  have hanalysis : Analysis.ofProgram (Program.ofSources (sourcesOf d files)).1 exclusions
      = .ok findings.analysis := by
    unfold analyse at h
    rw [Program.ofSources, ← fst_addFiles]
    cases hofProgram : Analysis.ofProgram (addFiles d .empty files).1 exclusions with
    | error e =>
      simp only [hofProgram, bind, Except.bind] at h
      cases h
    | ok a =>
      simp only [hofProgram, bind, Except.bind] at h
      cases h
      rfl
  obtain ⟨s, hs, hpath, hlt, hle⟩ := exists_source_of_removed hanalysis hr
  obtain ⟨path, hfile, hsource⟩ := List.mem_filterMap.1 hs
  cases htext : textOf d path with
  | error e =>
    rw [htext] at hsource
    cases hsource
  | ok text =>
    rw [htext] at hsource
    cases hsource
    exact ⟨path, hfile, text, htext, hpath, hlt, hle⟩

theorem scriptPath?_of_path {r : Removed} (hclean : path.Clean) (h : r.path = some (toString path)) :
    r.scriptPath? = some path := by
  have hne : toString path ≠ "" := by
    intro hempty
    have hroot := Path.ofText_toString hclean.proper
    rw [hempty] at hroot
    have hanchor := congrArg Path.anchor hroot
    rw [hclean.anchor] at hanchor
    cases hanchor
  simp [Removed.scriptPath?, h, hne, Path.ofText_toString hclean.proper]

/-- A file with removed methods is a script, and something is left of it. -/
theorem exists_leftOf {findings : Findings} {exclusions : List String}
    (h : analyse d files exclusions = .ok findings) (hclean : ∀ path ∈ files, path.Clean)
    (hne : Pruned.recordsAt findings.analysis.removed path ≠ []) :
    path ∈ files ∧ ∃ left, LeftOf d path (Pruned.recordsAt findings.analysis.removed path) left := by
  -- every one of the records is about this file
  have hrecords : ∀ r ∈ Pruned.recordsAt findings.analysis.removed path, path ∈ files ∧
      ∃ text, textOf d path = .ok text ∧ r.start < r.stop ∧ r.stop ≤ text.length := by
    intro r hr
    obtain ⟨hr, hpath⟩ := List.mem_filter.1 hr
    obtain ⟨path', hfile, text, htext, hrecord, hspan⟩ := exists_file_of_removed h hr
    have hsame := scriptPath?_of_path (hclean path' hfile) hrecord
    rw [of_decide_eq_true hpath, Option.some.injEq] at hsame
    subst hsame
    exact ⟨hfile, text, htext, hspan⟩
  obtain ⟨r, hr⟩ := List.exists_mem_of_ne_nil _ hne
  obtain ⟨hfile, text, htext, -⟩ := hrecords r hr
  have hspans : ∀ span ∈ (Pruned.recordsAt findings.analysis.removed path).map Removed.span,
      span.start < span.stop ∧ span.stop ≤ text.length := List.forall_mem_map.2 fun r' hr' => by
    obtain ⟨-, text', htext', hspan⟩ := hrecords r' hr'
    rw [htext] at htext'
    cases htext'
    exact hspan
  obtain ⟨left, count, hremove, hshorter⟩ :=
    Text.exists_removeSpans_shorter (by simpa using hne) hspans
  obtain ⟨bytes, hread, hdecode⟩ := textOf_eq_ok_iff.1 htext
  exact ⟨hfile, left, bytes, text, count, hread, hdecode, hremove, hshorter⟩

/-! ## Their order -/

/-- The scripts that methods are removed from, with these, in the order of their paths. -/
def inOrder (removed : List Removed) : List (Path × List Removed) :=
  StableSort.sortBy (fun a b => StableSort.textsLe (Path.sortKey a.1) (Path.sortKey b.1))
    (Pruned.byPath removed).entries

/-- The scripts that methods are removed from, in the order of their paths. -/
def affected (removed : List Removed) : List Path := (inOrder removed).map Prod.fst

theorem mem_inOrder {removed rs : List Removed} :
    (path, rs) ∈ inOrder removed ↔ rs = Pruned.recordsAt removed path ∧ rs ≠ [] := by
  rw [inOrder, StableSort.mem_sortBy, OrderedMap.mem_entries_iff (Pruned.nodup_byPath removed),
    Pruned.get?_byPath]
  split
  · next hnil => simp [hnil]
  · next hne =>
    rw [Option.some.injEq, eq_comm]
    exact ⟨fun heq => ⟨heq, heq ▸ hne⟩, And.left⟩

theorem mem_affected {removed : List Removed} :
    path ∈ affected removed ↔ Pruned.recordsAt removed path ≠ [] := by
  simp [affected, mem_inOrder]

theorem nodup_affected (removed : List Removed) : (affected removed).Nodup := by
  have hperm : (affected removed).Perm (Pruned.byPath removed).keys :=
    (StableSort.sortBy_perm _ _).map _
  exact hperm.nodup_iff.2 (Pruned.nodup_byPath removed)

/-- The bytes of a file without its removed methods are other ones. -/
theorem LeftOf.ne {rs : List Removed} {left : String} {bytes : Bytes} (h : LeftOf d path rs left)
    (hread : d.read path = .ok bytes) : Text.Utf8.encode left ≠ bytes := by
  rintro rfl
  obtain ⟨bytes, text, count, hread', hdecode, -, hshorter⟩ := h
  rw [hread] at hread'
  cases hread'
  rw [Text.Utf8.decode_encode] at hdecode
  cases hdecode
  exact Nat.lt_irrefl _ hshorter

end Project

end SuperForward
