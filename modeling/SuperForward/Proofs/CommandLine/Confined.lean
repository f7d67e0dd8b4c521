/-
  What a run changes.

  A list of the forwards changes nothing, and neither does a cleaning that does not proceed. One
  that does changes the files that methods are removed from, and no others outside of the store.
  At every moment each file has the bytes that it had, or a recorded copy has them, and when the
  copies of the run are restored every file is what it was.
-/
import SuperForward.Proofs.Backup.Law
import SuperForward.Proofs.CommandLine.Cleaning
import SuperForward.Proofs.Forward.Rewriting

namespace SuperForward.CommandLine

open SuperForward.Files (Path Disk Action Entry Location FileSystem Lock)
open SuperForward.Project (LeftOf inOrder affected)
open SuperForward.Backup (Record Kept Stamp State Store)

/-! ## What is left by a cleaning -/

/-- Some files were cleaned, others were backed up only since they are locked, and no others
outside of the store are different. All the while each file had its bytes, or a recorded copy had
them. The records of the copies were added to those that the store had listed, and restoring all
of them, in any order, brings every file back. Only of files that were not cleaned the copy may
not be restored, and these have their bytes. -/
structure Confined (store : Store) (removed : List Removed) (was : Disk) (done held : List Path)
    (ids : List String) (now : Disk) : Prop where
  covered : Disk.Throughout (store.Covers was) was now
  cut : ∀ path ∈ done, ∃ left, LeftOf was path (Pruned.recordsAt removed path) left
    ∧ now.read path = .ok (Text.Utf8.encode left)
  unlocked : ∀ path ∈ done, was.files.isLocked path.parts = false
  others : ∀ q, ¬ store.place was <+: q → (∀ path ∈ done, path.parts ≠ q) →
    now.files.bytesAt? q = was.files.bytesAt? q
  locks : ∀ q, ¬ store.place was <+: q → (∀ path ∈ held, path.parts ≠ q) →
    (was.files.bytesAt? q).isSome → now.files.lock? q = was.files.lock? q
  recorded : done ++ held ≠ [] → ∃ (opened : Disk) (older new : List Record),
    store.open.outcome was = (.ok (), opened)
      ∧ store.records.outcome opened = (.ok (.array (older.map Record.toValue)), opened)
      ∧ store.records.outcome now = (.ok (.array ((older ++ new).map Record.toValue)), now)
      ∧ new.map Record.id = ids ∧ new.map Record.sourcePath = (done ++ held).map toString
  restored : ∀ ids', (∀ id, id ∈ ids' ↔ id ∈ ids) →
    ∃ failed back, store.restoreAll ids' now = (failed, back) ∧ store.SpareOthers was back
      ∧ ∀ id ∈ failed, id ∈ ids.drop done.length

/-- How a cleaning ends: all files were cleaned; or the store could not be opened, and none was; or
those were cleaned that come before a file that nothing can be cut from. -/
inductive Ends (store : Store) (s : Session) (removed : List Removed) :
    (done held : List Path) → Ending → Prop where
  | cleaned : Ends store s removed (affected removed) [] (.exit 0)
  | unopened {fault : Backup.Fault} (h : (store.open.outcome s.disk).1 = .error fault) :
    Ends store s removed [] [] (.crash (.store fault))
  | stopped {done held rest : List Path} {path : Path} {ending : Ending}
    (hnext : affected removed = done ++ path :: rest)
    (h : Stops store s.disk (s.stamp (s.stampsUsed + done.length)).id path held ending) :
    Ends store s removed done held ending

/-- What is shown before files are cleaned has no part in how that ends. -/
theorem Ends.of_untouched {store : Store} {s s' : Session} {removed : List Removed}
    {done held : List Path} {ending : Ending} (h : Ends store s' removed done held ending)
    (hsame : s.Untouched s') : Ends store s removed done held ending := by
  cases h with
  | cleaned => exact .cleaned
  | unopened hopen => exact .unopened (by rwa [hsame.disk] at hopen)
  | stopped hnext hstops =>
    rw [hsame.disk, hsame.stamp, hsame.stampsUsed] at hstops
    exact .stopped hnext hstops

/-- How a run ends that does a job. -/
def Ending.ofResult : Except Ending Unit → Ending
  | .ok () => .exit 0
  | .error ending => ending

namespace Job

variable {store : Store} {s s' : Session} {settings : Settings} {removed : List Removed}
  {used : List String}

section Opened

variable {opened was : Disk} {older : List Record} {st' : State} {done : List (Path × List Removed)}
  {held : List Path} {ids : List String}

/-- The files that were cleaned are not locked, and those that were backed up only have their
bytes. -/
theorem Cleans.restorable (h : Cleans store older was ⟨opened, used, []⟩ done held ids st')
    (hspares : store.SpareOthers was opened) (hids : ids.Nodup)
    (hparts : ((done.map Prod.fst ++ held).map Path.parts).Nodup)
    (hfiles : ∀ path ∈ done.map Prod.fst ++ held, ∃ rs, Cuttable store was path rs) :
    Store.Restorable was (ids.take done.length) st' := by
  obtain ⟨more, hkept, hmore, hpaths⟩ := h.entered
  rw [List.nil_append] at hkept
  have hsources : more.map Kept.source = done.map Prod.fst ++ held := by
    have hread : ∀ path ∈ done.map Prod.fst ++ held, Path.ofText (toString path) = path :=
      fun path hpath => by
        obtain ⟨rs, hfile⟩ := hfiles path hpath
        exact Path.ofText_toString hfile.clean.proper
    have hall := congrArg (List.map Path.ofText) hpaths
    rw [List.map_map, List.map_map] at hall
    exact hall.trans ((List.map_congr_left hread).trans (List.map_id _))
  obtain ⟨cleaned, spared, rfl, hcleaned, hspared⟩ := List.map_eq_append_iff.1 hsources
  have hfree : ids.take done.length = cleaned.map fun k => k.record.id := by
    have hlength : done.length = cleaned.length := by
      rw [← List.length_map (f := Prod.fst), ← hcleaned, List.length_map]
    rw [← hmore, List.map_append, hlength]
    exact List.take_left' (List.length_map _)
  rw [List.map_append] at hparts hmore
  obtain ⟨-, -, hapart⟩ := List.nodup_append.1 hparts
  rw [← hmore] at hids
  obtain ⟨-, -, hother⟩ := List.nodup_append.1 hids
  refine ⟨fun k hk k' hk' heq => ?_, fun k hk hmem _ => ?_, fun k hk hmem => ?_⟩
  · rw [hkept] at hk hk'
    refine List.inj_on_of_nodup_map (f := fun k : Kept => k.source.parts) ?_ hk hk' heq
    rw [← List.map_append, ← hsources, List.map_map] at hparts
    exact hparts
  -- the copy of a file that was cleaned
  · rw [hfree] at hmem
    obtain ⟨k', hk', hid⟩ := List.mem_map.1 hmem
    rw [hkept] at hk
    have hin : k ∈ cleaned := (List.mem_append.1 hk).resolve_right fun hk =>
      hother _ hmem _ (List.mem_map_of_mem hk) rfl
    have hsource : k.source ∈ done.map Prod.fst := hcleaned ▸ List.mem_map_of_mem hin
    obtain ⟨rs, hfile⟩ := hfiles _ (List.mem_append_left _ hsource)
    obtain ⟨bytes, hbytes⟩ := hfile.exists_bytes
    obtain ⟨-, hlock⟩ := h.locks _ hfile.outside (fun path hpath heq =>
      hapart _ (List.mem_map_of_mem hsource) _ (List.mem_map_of_mem hpath) heq.symm)
      (by rw [hbytes]; rfl)
    obtain ⟨e, he, heq⟩ := List.mem_map.1 hsource
    have hwas := h.unlocked e he
    rw [heq] at hwas
    rw [FileSystem.isLocked, hlock,
      FileSystem.lock?_eq_none_of_file (FileSystem.bytesAt?_eq_some_iff.1 hbytes) hwas]
    exact Bool.and_false _
  -- the copy of a file that was not
  · rw [hkept] at hk
    have hin : k ∈ spared := (List.mem_append.1 hk).resolve_left fun hk =>
      hmem (hfree ▸ List.mem_map_of_mem hk)
    have hsource : k.source ∈ held := hspared ▸ List.mem_map_of_mem hin
    obtain ⟨rs, hfile⟩ := hfiles _ (List.mem_append_right _ hsource)
    rw [h.others _ hfile.outside fun e he => hapart _ (List.mem_map_of_mem (List.mem_map_of_mem he)) _
      (List.mem_map_of_mem hsource)]
    exact hspares _ hfile.outside

/-- Files that are cleaned once the store is open are confined. -/
theorem Cleans.confined (h : Cleans store older was ⟨opened, used, []⟩ done held ids st')
    (hdirectory : store.directory.Proper) (hsound : store.Sound older ⟨opened, used, []⟩)
    (hopen : store.open.outcome was = (.ok (), opened)) (hids : ids.Nodup)
    (hpaths : (done.map Prod.fst ++ held).Nodup)
    (hfiles : ∀ path ∈ done.map Prod.fst ++ held,
      Cuttable store was path (Pruned.recordsAt removed path))
    (hrecords : ∀ e ∈ done, e.2 = Pruned.recordsAt removed e.1) :
    Confined store removed was (done.map Prod.fst) held ids st'.disk where
  covered := by
    have hmoments := Backup.Store.throughout_open hdirectory hopen
    exact (hmoments.mono fun _ => Backup.Store.SpareOthers.covers).trans h.covered
  cut := List.forall_mem_map.2 fun e he => by
    obtain ⟨left, hleft, hbytes⟩ := h.cut e he
    rw [← hrecords e he]
    refine ⟨left, hleft,
      Disk.read_eq_ok_iff.2 ⟨e.1.parts, ?_, FileSystem.bytesAt?_eq_some_iff.1 hbytes⟩⟩
    obtain ⟨bytes, text, count, hread, -⟩ := hleft
    have hclean := (hfiles e.1 (List.mem_append_left _ (List.mem_map_of_mem he))).clean
    exact Disk.locate_mono h.answers.continues (of_read_clean hclean hread).1
  unlocked := List.forall_mem_map.2 h.unlocked
  others q hq hne := by
    rw [List.forall_mem_map] at hne
    exact (h.others q hq hne).trans
      ((Backup.Store.throughout_open hdirectory hopen).last q hq)
  locks q hq hne hfile := (h.locks q hq hne hfile).2
  recorded _ := by
    obtain ⟨more, hkept, hmore, hsources⟩ := h.entered
    have hlists := h.answers.sound.lists.records
    have hopened := hsound.lists.records
    rw [hkept] at hlists
    refine ⟨opened, older, more.map Kept.record, hopen, by simpa using hopened, hlists, ?_, ?_⟩
    · rw [List.map_map]
      exact hmore
    · rw [List.map_map]
      exact hsources
  restored ids' hids' := by
    have hparts : ((done.map Prod.fst ++ held).map Path.parts).Nodup :=
      hpaths.map_on fun path hpath path' hpath' heq =>
        (hfiles path hpath).clean.eq_of_parts (hfiles path' hpath').clean heq
    have hrestorable := h.restorable (Backup.Store.throughout_open hdirectory hopen).last hids
      hparts fun path hpath => ⟨_, hfiles path hpath⟩
    have hentries : ∀ id, id ∈ ids ↔ ∃ k ∈ st'.kept, k.record.id = id := by
      obtain ⟨more, hkept, rfl, -⟩ := h.entered
      exact fun id => by rw [hkept, List.mem_map]; rfl
    obtain ⟨failed, back, hall, hfailed, hspares⟩ := h.answers.restoreAll_spares hrestorable
      fun id => (hids' id).trans (hentries id)
    refine ⟨failed, back, hall, hspares, fun id hid => ?_⟩
    obtain ⟨hmem, hnot⟩ := hfailed id hid
    rw [hids', ← List.take_append_drop done.length ids, List.mem_append] at hmem
    rw [List.length_map]
    exact hmem.resolve_left hnot

end Opened

/-! ## Cleaning all files -/

/-- What is shown at the end. -/
def announce (settings : Settings) (cleaned : List (Path × Nat × String)) : Job Unit := do
  let total := (cleaned.map fun (_, count, _) => count).foldl Nat.add 0
  say ("\n[bold green]Removed " ++ toString total ++ " method(s) from "
    ++ toString cleaned.length ++ " file(s).[/bold green]")
  for (path, _, id) in cleaned do
    say ("  " ++ Markup.escape (displayPath (toString path) settings.project)
      ++ " -> backup [cyan]" ++ id ++ "[/cyan]")
  say "[dim]Use 'super-reaper restore <backup-id>' to undo[/dim]"

theorem exists_outcome_announce (settings : Settings) (cleaned : List (Path × Nat × String))
    (s : Session) : ∃ s', (announce settings cleaned).outcome s = (.ok (), s') ∧ s'.disk = s.disk := by
  obtain ⟨between, hsay, hbetween⟩ := exists_outcome_say ("\n[bold green]Removed "
    ++ toString ((cleaned.map fun (_, count, _) => count).foldl Nat.add 0) ++ " method(s) from "
    ++ toString cleaned.length ++ " file(s).[/bold green]") s
  obtain ⟨between', hlisted, hbetween'⟩ := exists_outcome_forIn (fun e : Path × Nat × String =>
    "  " ++ Markup.escape (displayPath (toString e.1) settings.project)
      ++ " -> backup [cyan]" ++ e.2.2 ++ "[/cyan]") cleaned between
  obtain ⟨s', hclosing, hs'⟩ :=
    exists_outcome_say "[dim]Use 'super-reaper restore <backup-id>' to undo[/dim]" between'
  refine ⟨s', ?_, ((hbetween.trans hbetween').trans hs').disk⟩
  rw [announce, outcome_bind_ok hsay, outcome_bind_ok hlisted, hclosing]

/-- Cleaning opens the store and cleans the files; what is shown then changes nothing. -/
theorem cases_pruneAll {r : Except Ending Unit}
    (h : (pruneAll settings removed).outcome s = (r, s')) :
    (∃ fault, (Store.open ⟨settings.trash⟩).outcome s.disk = (.error fault, s'.disk)
        ∧ r = .error (.crash (.store fault)))
      ∨ ∃ opened r' between, (Store.open ⟨settings.trash⟩).outcome s.disk = (.ok (), opened)
        ∧ ((inOrder removed).mapM (cleanEntry ⟨settings.trash⟩)).outcome { s with disk := opened }
          = (r', between)
        ∧ s'.disk = between.disk ∧ r = r'.map fun _ => () := by
  have heq : pruneAll settings removed = (onStore (Store.open ⟨settings.trash⟩) >>= fun _ =>
    (inOrder removed).mapM (cleanEntry ⟨settings.trash⟩) >>= announce settings) := rfl
  rw [heq] at h
  rcases hopen : (Store.open ⟨settings.trash⟩).outcome s.disk with ⟨fault | ⟨⟩, opened⟩
  · rw [outcome_bind_error (outcome_onStore_error hopen)] at h
    cases h
    exact .inl ⟨fault, rfl, rfl⟩
  rw [outcome_bind_ok (outcome_onStore_ok hopen)] at h
  rcases cases_bind h with ⟨e, hcleaned, rfl⟩ | ⟨cleaned, between, hcleaned, h⟩
  · exact .inr ⟨opened, _, _, rfl, hcleaned, rfl, rfl⟩
  · obtain ⟨s'', hannounced, hsame⟩ := exists_outcome_announce settings cleaned between
    rw [hannounced] at h
    cases h
    exact .inr ⟨opened, _, _, rfl, hcleaned, hsame, rfl⟩

/-- Whatever comes of it, cleaning the files is confined. -/
theorem exists_confined {r : Except Ending Unit} (hcurrent : s.disk.current.Proper)
    (htrash : settings.trash.Proper) (hinherits : Store.Inherits ⟨settings.trash⟩ used s.disk)
    (hids : s.Supplies (affected removed).length used)
    (hfiles : ∀ path ∈ affected removed,
      Cuttable ⟨settings.trash⟩ s.disk path (Pruned.recordsAt removed path))
    (h : (pruneAll settings removed).outcome s = (r, s')) :
    ∃ done held, Confined ⟨settings.trash⟩ removed s.disk done held
        (s.nextIds (done.length + held.length)) s'.disk
      ∧ Ends ⟨settings.trash⟩ s removed done held (.ofResult r) := by
  rcases cases_pruneAll h with ⟨fault, hopen, rfl⟩ | ⟨opened, r', between, hopen, hcleaned, hdisk, rfl⟩
  -- the store cannot be opened: nothing is touched but the store's own places
  · have hmoments := Backup.Store.throughout_open htrash hopen
    refine ⟨[], [], ?_, .unopened (by rw [hopen])⟩
    exact {
      covered := hmoments.mono fun _ => Backup.Store.SpareOthers.covers
      cut := by simp
      unlocked := by simp
      others := fun q hq _ => hmoments.last q hq
      locks := fun q hq _ hfile => (Backup.Store.spareLocks_open htrash hopen q hq hfile).2
      recorded := fun hne => absurd rfl hne
      restored := fun ids' hids' => by
        obtain rfl : ids' = [] := List.eq_nil_iff_forall_not_mem.2 fun id hid =>
          absurd ((hids' id).1 hid) List.not_mem_nil
        exact ⟨[], _, rfl, hmoments.last, by simp⟩ }
  -- the store is open: the files are cleaned in turn, and it answers for those that are done
  obtain ⟨hcont, older, hsound⟩ := hinherits.sound hcurrent htrash hopen
  have hanswers := hsound.answers hcont (Backup.Store.throughout_open htrash hopen).last
  have hentries : ∀ e ∈ inOrder removed, e.2 = Pruned.recordsAt removed e.1
      ∧ Cuttable ⟨settings.trash⟩ s.disk e.1 e.2 := fun e he => by
    have hrecords := (Project.mem_inOrder.1 he).1
    exact ⟨hrecords, hrecords ▸ hfiles _ (List.mem_map_of_mem he)⟩
  have hapart : (inOrder removed).Pairwise fun e e' => e.1.parts ≠ e'.1.parts :=
    (List.pairwise_map.1 (Project.nodup_affected removed)).imp_of_mem fun he he' hne heq =>
      hne ((hentries _ he).2.clean.eq_of_parts (hentries _ he').2.clean heq)
  have hlength : (affected removed).length = (inOrder removed).length := List.length_map _
  rw [hlength] at hids
  have hopened : ({ s with disk := opened } : Session).Supplies (inOrder removed).length used :=
    ⟨hids.nodup, hids.made, hids.unused⟩
  obtain ⟨done, held, st', hleft, hcleans, hend⟩ := cases_cleanEntries
    (s := { s with disk := opened }) hanswers (Backup.Store.spareLocks_open htrash hopen) rfl
    (fun e he => (hentries e he).2) hapart hopened (by simp) hcleaned
  have hbegin : done <+: inOrder removed ∧ done.map Prod.fst ++ held <+: affected removed := by
    rcases hend with ⟨-, rfl, rfl⟩ | ⟨_, e, rest, -, heq, hstops⟩
    · exact ⟨List.prefix_rfl, by rw [List.append_nil, affected]⟩
    · refine ⟨heq ▸ List.prefix_append .., ?_⟩
      rw [affected, heq, List.map_append, List.prefix_append_right_inj]
      exact hstops.held_isPrefix.trans (List.prefix_append [e.1] _)
  refine ⟨done.map Prod.fst, held, ?_, ?_⟩
  · rw [hdisk, hleft, List.length_map]
    refine hcleans.confined htrash hsound hopen ?_ ?_
      (fun path hpath => hfiles path (hbegin.2.subset hpath))
      fun e he => (hentries e (hbegin.1.subset he)).1
    · refine hids.nodup.sublist (s.nextIds_isPrefix ?_).sublist
      have hdone : (done.map Prod.fst).length = done.length := List.length_map _
      rw [← hlength, ← hdone, ← List.length_append]
      exact hbegin.2.length_le
    · exact (Project.nodup_affected removed).sublist hbegin.2.sublist
  · rcases hend with ⟨⟨cleaned, rfl⟩, rfl, rfl⟩ | ⟨ending, e, rest, rfl, heq, hstops⟩
    · exact .cleaned
    · have hnext : affected removed = done.map Prod.fst ++ e.1 :: rest.map Prod.fst := by
        rw [affected, heq, List.map_append, List.map_cons]
      refine .stopped hnext ?_
      rw [List.length_map]
      exact hstops

/-! ## The files of a project -/

theorem project_of_load {d : Disk} {project : Path} {environment : Settings.Environment}
    (h : Settings.load d project environment = .ok settings) : settings.project = project := by
  unfold Settings.load Settings.check at h
  cases henvironment : Settings.environmentFor d project environment with
  | error fault =>
    rw [henvironment] at h
    cases h
  | ok environment =>
    rw [henvironment] at h
    simp only [bind, Except.bind] at h
    split at h
    · cases h
      rfl
    · cases h

variable {project : String} {tags : List String} {findings : Project.Findings}

/-- The project is a clean path, so the store has a proper one. -/
theorem Prospect.clean (h : Prospect s project tags settings findings)
    (hcurrent : s.disk.current.Proper) : settings.project.Clean := by
  rw [project_of_load h.loads]
  exact Files.Path.clean_resolve (Path.proper_ofText project) hcurrent

theorem Prospect.proper_trash (h : Prospect s project tags settings findings)
    (hcurrent : s.disk.current.Proper) : settings.trash.Proper :=
  (h.clean hcurrent).proper.join (Path.proper_ofText _)

/-- The removed methods can be cut from their files. -/
theorem Prospect.cuttable (h : Prospect s project tags settings findings)
    (hnamed : s.disk.files.Named) (hcurrent : s.disk.current.Proper) {path : Path}
    (hpath : path ∈ affected findings.analysis.removed) :
    Cuttable ⟨settings.trash⟩ s.disk path (Pruned.recordsAt findings.analysis.removed path) := by
  obtain ⟨files, hdiscovered, hanalysed⟩ := h.finds
  have hfound : ∀ path ∈ files, _ := fun path =>
    Project.of_mem_discover hnamed (h.clean hcurrent) hdiscovered
  obtain ⟨hfile, left⟩ := Project.exists_leftOf hanalysed (fun path hpath => (hfound path hpath).1)
    (Project.mem_affected.1 hpath)
  exact ⟨(hfound path hfile).1, (hfound path hfile).2, left⟩

end Job

/-! ## Runs -/

theorem run_eq {args : List String} {verbose : Bool} {command : Command}
    (h : readRequest args = some (.run verbose command)) (s : Session) : run args s
      = ⟨.ofResult ((Job.perform verbose command).outcome s).1,
        ((Job.perform verbose command).outcome s).2⟩ := by
  rw [run, h]
  show (match (Job.perform verbose command).outcome s with
    | (.ok (), s) => (⟨.exit 0, s⟩ : Result)
    | (.error ending, s) => ⟨ending, s⟩) = _
  rcases (Job.perform verbose command).outcome s with ⟨e | ⟨⟩, s'⟩ <;> rfl

section Cleaning

variable {args : List String} {verbose dryRun yes skip : Bool} {project : String}
  {tags : List String} {s : Session}

/-- A cleaning that does not proceed leaves the disk as it is. -/
theorem disk_run_of_not_proceeds
    (hrequest : readRequest args = some (.run verbose (.clean project tags dryRun yes skip)))
    (hnone : ∀ settings findings, ¬ Job.Proceeds s project tags dryRun yes skip settings findings) :
    (run args s).session.disk = s.disk := by
  rw [run_eq hrequest]
  rcases hout : (Job.perform verbose (.clean project tags dryRun yes skip)).outcome s with ⟨r, s'⟩
  rcases Job.cases_clean hout with ⟨hdisk, -⟩ | ⟨_, _, _, hproceeds, -⟩
  · exact hdisk
  · exact absurd hproceeds (hnone _ _)

/-- A cleaning that proceeds removes what was found. -/
theorem exists_run_eq {settings : Settings} {findings : Project.Findings}
    (hrequest : readRequest args = some (.run verbose (.clean project tags dryRun yes skip)))
    (hproceeds : Job.Proceeds s project tags dryRun yes skip settings findings) :
    ∃ between r s', s.Untouched between
      ∧ (Job.pruneAll settings findings.analysis.removed).outcome between = (r, s')
      ∧ run args s = ⟨.ofResult r, s'⟩ := by
  rw [run_eq hrequest]
  rcases hout : (Job.perform verbose (.clean project tags dryRun yes skip)).outcome s with ⟨r, s'⟩
  rcases Job.cases_clean hout with
    ⟨-, hnone⟩ | ⟨settings', findings', between, hproceeds', hsame, hpruned⟩
  · exact absurd hproceeds (hnone _ _)
  · obtain ⟨rfl, rfl⟩ := hproceeds.prospect.unique hproceeds'.prospect
    exact ⟨between, r, s', hsame, hpruned, rfl⟩

end Cleaning

/-! ## A project with one script -/

/-- A script with a forward. -/
def topScript : Source := scriptAround "/a.js" "" ""

/-- The path of the script. -/
def topPath : Path := ⟨.slash, ["a.js"]⟩

/-- A session in a project at the top that has the script, which may be locked, and perhaps
something else. -/
def sessionWith (others : List (Location × Entry)) (lock : Option Lock) : Session :=
  .start (.start ⟨⟨others ++ [(["a.js"], .file (Text.Utf8.encode topScript.text))]⟩,
    ⟨lock.toList.map (["a.js"], ·)⟩⟩ ⟨.slash, []⟩) .empty [] fun _ => Store.firstStamp

/-- The script is not locked, or only read, or used by a program that lets go of it. -/
def topLocks : List (Option Lock) := [none, some .readOnly, some (.inUse 0)]

/-- A file where copies would go to. -/
def blocker : Location × Entry := ([".reaper_trash"], .file [0x78])

/-- The settings of the project. -/
def topSettings : Settings := ⟨⟨.slash, []⟩, .empty⟩

theorem removed_topScript : ∃ a,
    Analysis.ofProgram (Program.ofSources [topScript]).1 Removal.defaultExclusions = .ok a
      ∧ a.removed = [⟨"B.prototype.m", some "/a.js", 1, 122, 181⟩]
      ∧ (Program.ofSources [topScript]).2 = [] := by
  have htext : topScript.text = String.ofList _ :=
    text_append (text_append (text_append (text_append rfl rfl) rfl) rfl) rfl
  have hprogram : Program.ofSources [topScript] = _ := Program.ofSources_one htext
  obtain ⟨a, ha, htest⟩ := @exists_analysis [topScript] (fun a =>
    decide (a.removed = [⟨"B.prototype.m", some "/a.js", 1, 122, 181⟩])) (by
    rw [hprogram]
    decide +kernel)
  refine ⟨a, ha, of_decide_eq_true htest, ?_⟩
  rw [hprogram]
  decide +kernel

theorem clean_topPath : topPath.Clean :=
  ⟨rfl, List.forall_mem_singleton.2 ⟨by decide, by decide⟩, by decide⟩

section

variable (others : List (Location × Entry)) (lock : Option Lock)

theorem proper_sessionWith : (sessionWith others lock).disk.current.Proper :=
  fun _ hname => absurd hname List.not_mem_nil

theorem supplies_sessionWith : (sessionWith others lock).Supplies 1 [] :=
  ⟨List.nodup_singleton _, List.forall_mem_singleton.2 Store.isMade_firstStamp, by simp⟩

end

theorem readRequest_clean : readRequest ["clean", "--yes"]
    = some (.run false (.clean "." [] false true false)) := by rfl

section

variable {others : List (Location × Entry)} (h : others = [] ∨ others = [blocker])
  {lock : Option Lock} (hlock : lock ∈ topLocks)

include h

theorem load_topSettings : Settings.load (sessionWith others lock).disk ⟨.slash, []⟩ .empty
    = .ok topSettings := by
  have hlevel : (Log.threshold? topSettings.logLevel).isSome = true := by rfl
  obtain ⟨level, hlevel⟩ := Option.isSome_iff_exists.1 hlevel
  have hcheck : Settings.check topSettings = .ok topSettings := by
    unfold Settings.check
    rw [hlevel]
  rcases h with rfl | rfl
  · exact hcheck
  · exact hcheck

theorem textOf_topScript : Project.textOf (sessionWith others lock).disk topPath = .ok topScript.text := by
  have hlocate : (sessionWith others lock).disk.locate topPath = .ok ["a.js"] := by
    rcases h with rfl | rfl
    · rfl
    · rfl
  have hentry : (sessionWith others lock).disk.files.entry? ["a.js"]
      = some (.file (Text.Utf8.encode topScript.text)) := by
    rcases h with rfl | rfl
    · rfl
    · rfl
  exact Project.textOf_eq_ok_iff.2
    ⟨_, Disk.read_eq_ok_iff.2 ⟨_, hlocate, hentry⟩, Text.Utf8.decode_encode _⟩

include hlock

theorem exists_proceeds : ∃ findings,
    Job.Proceeds (sessionWith others lock) "." [] false true false topSettings findings
      ∧ affected findings.analysis.removed = [topPath] := by
  obtain ⟨a, ha, hremoved, hrefusals⟩ := removed_topScript
  have hsources : Project.sourcesOf (sessionWith others lock).disk [topPath] = [topScript] := by
    have hname : toString topPath = topScript.path := by rfl
    rw [Project.sourcesOf, List.filterMap_cons, textOf_topScript h, hname]
    rfl
  have hadded : Project.addFiles (sessionWith others lock).disk .empty [topPath]
      = Program.ofSources [topScript] := by
    rw [Project.addFiles_of_texts _ (List.forall_mem_singleton.2 ⟨_, textOf_topScript h⟩), hsources]
    rfl
  have hexclusions : topSettings.exclusions ++ [].map Settings.bareTag = Removal.defaultExclusions := by
    decide +kernel
  -- the analysis is known for the program of the one source, so no text is read again here
  have hanalysed : Project.analyse (sessionWith others lock).disk [topPath]
      (topSettings.exclusions ++ [].map Settings.bareTag) = .ok ⟨[topPath], [], a⟩ := by
    unfold Project.analyse
    rw [hadded, hexclusions]
    rcases hprogram : Program.ofSources [topScript] with ⟨program, refusals⟩
    rw [hprogram] at ha hrefusals
    obtain rfl : refusals = [] := hrefusals
    simp only [ha]
    rfl
  have hroot : (Path.ofText ".").resolve (sessionWith others lock).disk.current = ⟨.slash, []⟩ := by
    show (Path.ofText ".").resolve ⟨.slash, []⟩ = _
    rfl
  -- what is looked up on the disk is computed, once for each of the disks
  have hlooks : (sessionWith others lock).disk.resolve (.ofText ".") = .ok ⟨.slash, []⟩
      ∧ (sessionWith others lock).disk.isThere ⟨.slash, []⟩ = .ok true
      ∧ Project.discover (sessionWith others lock).disk topSettings.project Settings.excludedDirectories
        (some topSettings.trash) = .ok [topPath] := by
    clear hsources hadded hanalysed hroot
    revert lock
    rcases h with rfl | rfl
    · decide +kernel
    · decide +kernel
  obtain ⟨hresolved, hthere, hdiscovered⟩ := hlooks
  refine ⟨⟨[topPath], [], a⟩, ?_, ?_⟩
  · exact {
      prospect := ⟨by rw [hroot, hresolved], by rw [hroot, hthere],
        by rw [hroot]; exact load_topSettings h, ⟨_, hdiscovered, hanalysed⟩⟩
      refusals := .inl rfl
      removed := by
        rw [hremoved]
        exact List.cons_ne_nil _ _
      wet := rfl
      agreed := .inl rfl }
  · rw [hremoved]
    decide +kernel

end

/-- A list of the forwards leaves the disk as it is, and so does a cleaning that does not
proceed. One that proceeds is confined, whatever it comes to, if the store is new or was left by
earlier runs, and if the ids for the copies are new. -/
theorem run_confined (args : List String) (s : Session) (hnamed : s.disk.files.Named)
    (hcurrent : s.disk.current.Proper) :
    (∀ verbose project tags, readRequest args = some (.run verbose (.audit project tags)) →
      (run args s).session.disk = s.disk)
    ∧ ∀ verbose project tags dryRun yes skip,
      readRequest args = some (.run verbose (.clean project tags dryRun yes skip)) →
        ((∀ settings findings,
            ¬ Job.Proceeds s project tags dryRun yes skip settings findings) →
          (run args s).session.disk = s.disk)
        ∧ ∀ settings findings, Job.Proceeds s project tags dryRun yes skip settings findings →
          ∀ used, Store.Inherits ⟨settings.trash⟩ used s.disk →
            s.Supplies (affected findings.analysis.removed).length used →
              ∃ done held, Confined ⟨settings.trash⟩ findings.analysis.removed s.disk done held
                  (s.nextIds (done.length + held.length)) (run args s).session.disk
                ∧ Ends ⟨settings.trash⟩ s findings.analysis.removed done held
                  (run args s).ending := by
  refine ⟨fun verbose project tags hrequest => ?_, fun verbose project tags dryRun yes skip hrequest =>
    ⟨disk_run_of_not_proceeds hrequest,
      fun settings findings hproceeds used hinherits hids => ?_⟩⟩
  · rw [run_eq hrequest]
    exact (Job.quiet_audit verbose project tags s).disk
  obtain ⟨between, r, s', hsame, hpruned, hrun⟩ := exists_run_eq hrequest hproceeds
  have hprospect := hproceeds.prospect
  obtain ⟨done, held, hconfined, hends⟩ := Job.exists_confined (by rwa [hsame.disk])
    (hprospect.proper_trash hcurrent) (by rwa [hsame.disk]) (hids.untouched hsame)
    (fun path hpath => by
      rw [hsame.disk]
      exact hprospect.cuttable hnamed hcurrent hpath) hpruned
  rw [hsame.disk, hsame.nextIds] at hconfined
  rw [hrun]
  exact ⟨done, held, hconfined, hends.of_untouched hsame⟩

/-- The script is cleaned, or else it is locked. -/
theorem cases_topScript {lock : Option Lock} {removed : List Removed} {done held : List Path}
    {ending : Ending} (haffected : affected removed = [topPath])
    (hfree : ∀ path ∈ done, (sessionWith [] lock).disk.files.isLocked path.parts = false)
    (h : Ends ⟨topSettings.trash⟩ (sessionWith [] lock) removed done held ending) :
    lock = none ∧ done = [topPath] ∧ held = [] ∧ ending = .exit 0
      ∨ ∃ left, lock = some left ∧ done = [] ∧ held = [topPath]
        ∧ ending = .atLocked topPath left := by
  cases h with
  | cleaned =>
    rw [haffected] at hfree ⊢
    rcases lock with - | left
    · exact .inl ⟨rfl, rfl, rfl, rfl⟩
    · cases hfree topPath (List.mem_singleton_self _)
  | unopened hopen =>
    have hopens : ((Store.open ⟨topSettings.trash⟩).outcome (sessionWith [] lock).disk).1
        = .ok () := rfl
    rw [hopens] at hopen
    cases hopen
  | stopped hnext hstops =>
    -- a single path is affected, so no file comes before the one that stops the run
    rw [haffected] at hnext
    obtain rfl : done = [] := List.eq_nil_of_length_eq_zero (by
      have hlength := congrArg List.length hnext
      simp only [List.length_cons, List.length_nil, List.length_append] at hlength
      omega)
    cases hnext
    cases hstops with
    | uncopied _ hcannot =>
      have hcan : (Store.copyPath ⟨topSettings.trash⟩ Store.firstStamp.id topPath).Askable :=
        ⟨by decide, by decide⟩
      exact absurd hcan hcannot
    | locked left hleft =>
      rcases lock with - | left'
      · cases hleft
      · cases hleft
        exact .inr ⟨left, rfl, rfl, rfl, rfl⟩

/-- What comes of the script under a lock: it is cleaned or held, and how the run ends. -/
def TopScriptEnds (lock : Option Lock) (done held : List Path) (ending : Ending) : Prop :=
  ∃ findings, Job.Proceeds (sessionWith [] lock) "." [] false true false topSettings findings
    ∧ Confined ⟨topSettings.trash⟩ findings.analysis.removed (sessionWith [] lock).disk done held
      [Store.firstStamp.id] (run ["clean", "--yes"] (sessionWith [] lock)).session.disk
    ∧ (run ["clean", "--yes"] (sessionWith [] lock)).ending = ending

/-- The forward is removed from its script, and a copy of the script is made. Where the script is
locked, it is copied only, and restored if the program that used it has let go of it. -/
theorem run_confined_topScript :
    (∀ lock ∈ topLocks, (sessionWith [] lock).disk.files.Named
        ∧ (sessionWith [] lock).disk.current.Proper)
      ∧ TopScriptEnds none [topPath] [] (.exit 0)
      ∧ TopScriptEnds (some .readOnly) [] [topPath]
        (.crash (.store (.files (.refused .denied "/a.js"))))
      ∧ TopScriptEnds (some (.inUse 0)) [] [topPath] (.exit 1) := by
  have hnamed : ∀ lock ∈ topLocks, (sessionWith [] lock).disk.files.Named := by
    intro lock _ place hplace name hname
    obtain rfl : place = ["a.js"] := List.mem_singleton.1 hplace
    obtain rfl : name = "a.js" := List.mem_singleton.1 hname
    exact ⟨⟨by decide, by decide⟩, by decide⟩
  have hcurrent := proper_sessionWith []
  have hinherits : ∀ lock ∈ topLocks,
      Store.Inherits ⟨topSettings.trash⟩ [] (sessionWith [] lock).disk := by
    intro lock _
    have hempty : ∀ q, topSettings.trash.parts <+: q →
        (sessionWith [] lock).disk.files.entry? q = none := by
      rintro q ⟨rest, rfl⟩
      rfl
    exact fun made hmade => .inl fun q hbelow hne =>
      Store.empty_of_settled (s := ⟨topSettings.trash⟩) ⟨by decide, by decide, by decide⟩ hempty hmade
        hbelow hne
  have hends : ∀ lock ∈ topLocks, TopScriptEnds lock [topPath] [] (.exit 0) ∧ lock = none
      ∨ ∃ left, TopScriptEnds lock [] [topPath] (.atLocked topPath left) ∧ lock = some left := by
    intro lock hlock
    obtain ⟨findings, hproceeds, haffected⟩ := exists_proceeds (.inl rfl) hlock
    have hids : (sessionWith [] lock).Supplies (affected findings.analysis.removed).length [] := by
      rw [haffected]
      exact supplies_sessionWith [] lock
    obtain ⟨done, held, hconfined, hends⟩ := ((run_confined ["clean", "--yes"] (sessionWith [] lock)
      (hnamed lock hlock) (hcurrent lock)).2 false "." [] false true false readRequest_clean).2
      topSettings findings hproceeds [] (hinherits lock hlock) hids
    rcases cases_topScript haffected hconfined.unlocked hends with
      ⟨hnone, rfl, rfl, hending⟩ | ⟨left, hsome, rfl, rfl, hending⟩
    · exact .inl ⟨⟨findings, hproceeds, hconfined, hending⟩, hnone⟩
    · exact .inr ⟨left, ⟨findings, hproceeds, hconfined, hending⟩, hsome⟩
  refine ⟨fun lock hlock => ⟨hnamed lock hlock, hcurrent lock⟩, ?_, ?_, ?_⟩
  · rcases hends none (by decide) with ⟨h, -⟩ | ⟨left, -, hno⟩
    · exact h
    · cases hno
  · rcases hends (some .readOnly) (by decide) with ⟨-, hno⟩ | ⟨left, h, hleft⟩
    · cases hno
    · cases hleft
      exact h
  · rcases hends (some (.inUse 0)) (by decide) with ⟨-, hno⟩ | ⟨left, h, hleft⟩
    · cases hno
    · cases hleft
      exact h

/-- Where a file stands in the place of the directory for copies, no copy can be made. The script
with the forward is not changed, though nothing says that it should not be. -/
theorem topScript_unchanged_blocker : ∃ findings,
    Job.Proceeds (sessionWith [blocker] none) "." [] false true false topSettings findings
      ∧ Store.Inherits ⟨topSettings.trash⟩ [] (sessionWith [blocker] none).disk
      ∧ (sessionWith [blocker] none).Supplies (affected findings.analysis.removed).length []
      ∧ affected findings.analysis.removed = [topPath]
      ∧ (∃ fault, (run ["clean", "--yes"] (sessionWith [blocker] none)).ending = .crash (.store fault))
      ∧ (run ["clean", "--yes"] (sessionWith [blocker] none)).session.disk.files.bytesAt? ["a.js"]
        = (sessionWith [blocker] none).disk.files.bytesAt? ["a.js"]
      ∧ ∀ left, LeftOf (sessionWith [blocker] none).disk topPath
          (Pruned.recordsAt findings.analysis.removed topPath) left →
        (run ["clean", "--yes"] (sessionWith [blocker] none)).session.disk.read topPath
          ≠ .ok (Text.Utf8.encode left) := by
  obtain ⟨findings, hproceeds, haffected⟩ := exists_proceeds (.inr rfl) (List.mem_cons_self ..)
  have hinherits : Store.Inherits ⟨topSettings.trash⟩ [] (sessionWith [blocker] none).disk := by
    intro made hmade
    have hfails : ((Action.ensureDirectories topSettings.trash).outcome
        (sessionWith [blocker] none).disk).1 ≠ .ok () := by decide +kernel
    exact absurd (congrArg Prod.fst hmade) hfails
  obtain ⟨between, r, s', hsame, hpruned, hrun⟩ := exists_run_eq readRequest_clean hproceeds
  have hstops : ((Store.open ⟨topSettings.trash⟩).outcome (sessionWith [blocker] none).disk).1 ≠ .ok () := by
    decide +kernel
  -- the run ends where the store is opened, before any file is copied
  obtain ⟨fault, hopen, rfl⟩ : ∃ fault, (Store.open ⟨topSettings.trash⟩).outcome between.disk
      = (.error fault, s'.disk) ∧ r = .error (.crash (.store fault)) := by
    refine (Job.cases_pruneAll hpruned).resolve_right ?_
    rintro ⟨opened, _, _, hopen, -⟩
    rw [hsame.disk] at hopen
    exact hstops (congrArg Prod.fst hopen)
  rw [hsame.disk] at hopen
  have hproper := hproceeds.prospect.proper_trash (proper_sessionWith _ _)
  have hspare := (Store.throughout_open hproper hopen).last
  have hbytes : s'.disk.files.bytesAt? ["a.js"] = (sessionWith [blocker] none).disk.files.bytesAt? ["a.js"] :=
    hspare ["a.js"] (by decide)
  rw [hrun]
  refine ⟨findings, hproceeds, hinherits, haffected ▸ supplies_sessionWith _ _, haffected, ⟨fault, rfl⟩,
    hbytes, fun left hleft hread => ?_⟩
  -- the script is read as before, and what is left of it would be another text
  obtain ⟨bytes, hread', -⟩ := Project.textOf_eq_ok_iff.1 (textOf_topScript (.inr rfl))
  have hnow := (Job.of_read_clean clean_topPath hread).2
  have hwas := (Job.of_read_clean clean_topPath hread').2
  exact hleft.ne hread' (Option.some.inj ((hnow.symm.trans hbytes).trans hwas))

end SuperForward.CommandLine
