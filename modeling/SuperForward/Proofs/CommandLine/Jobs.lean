/-
  What the jobs of a run come to.

  A job is quiet if it leaves the disk, the stamps and the input alone; everything that a command
  does before the user is asked is quiet. What is found out about a project by then depends on
  the disk and the environment only.
-/
import SuperForward.CommandLine.Run
import SuperForward.Proofs.Files.Actions

namespace SuperForward.CommandLine

open SuperForward.Files (Path Disk Action)

namespace Session

/-- The disk is as it was, and no stamp was used. -/
structure Untouched (s s' : Session) : Prop where
  disk : s'.disk = s.disk
  stamp : s'.stamp = s.stamp
  stampsUsed : s'.stampsUsed = s.stampsUsed

/-- And nothing was read that the user had typed. -/
structure Undisturbed (s s' : Session) : Prop extends Untouched s s' where
  input : s'.input = s.input

theorem Untouched.trans {s s' s'' : Session} (h : s.Untouched s') (h' : s'.Untouched s'') :
    s.Untouched s'' :=
  ⟨h'.disk.trans h.disk, h'.stamp.trans h.stamp, h'.stampsUsed.trans h.stampsUsed⟩

theorem Undisturbed.refl (s : Session) : s.Undisturbed s := ⟨⟨rfl, rfl, rfl⟩, rfl⟩

theorem Undisturbed.trans {s s' s'' : Session} (h : s.Undisturbed s') (h' : s'.Undisturbed s'') :
    s.Undisturbed s'' := ⟨h.toUntouched.trans h'.toUntouched, h'.input.trans h.input⟩

end Session

namespace Job

variable {α β ε : Type} {s s' : Session}

/-- Does a job, with the session it leaves. -/
def outcome (j : Job α) (s : Session) : Except Ending α × Session := (ExceptT.run j).run s

/-! ## Steps of a job -/

theorem outcome_bind_ok {j : Job α} {f : α → Job β} {x : α} (h : j.outcome s = (.ok x, s')) :
    (j >>= f).outcome s = (f x).outcome s' := by
  unfold outcome at h ⊢
  rw [ExceptT.run_bind, StateT.run_bind, h]
  rfl

theorem outcome_bind_error {j : Job α} {f : α → Job β} {e : Ending}
    (h : j.outcome s = (.error e, s')) : (j >>= f).outcome s = (.error e, s') := by
  unfold outcome at h ⊢
  rw [ExceptT.run_bind, StateT.run_bind, h]
  rfl

/-- A job of two parts ends with the first part, or with the second. -/
theorem cases_bind {j : Job α} {f : α → Job β} {r : Except Ending β}
    (h : (j >>= f).outcome s = (r, s')) :
    (∃ e, j.outcome s = (.error e, s') ∧ r = .error e)
      ∨ ∃ x between, j.outcome s = (.ok x, between) ∧ (f x).outcome between = (r, s') := by
  rcases hj : j.outcome s with ⟨e | x, between⟩
  · rw [outcome_bind_error hj, Prod.mk.injEq] at h
    obtain ⟨rfl, rfl⟩ := h
    exact .inl ⟨e, rfl, rfl⟩
  · rw [outcome_bind_ok hj] at h
    exact .inr ⟨x, between, rfl, h⟩

/-- What a job does for the first of some values, and then for the others. -/
theorem cases_mapM_cons {γ : Type} {f : γ → Job α} {x : γ} {xs : List γ}
    {r : Except Ending (List α)} (h : ((x :: xs).mapM f).outcome s = (r, s')) :
    (∃ e, (f x).outcome s = (.error e, s') ∧ r = .error e)
      ∨ ∃ y between r', (f x).outcome s = (.ok y, between)
        ∧ (xs.mapM f).outcome between = (r', s') ∧ r = r'.map (List.cons y) := by
  rw [List.mapM_cons] at h
  rcases cases_bind h with ⟨e, hfirst, rfl⟩ | ⟨y, between, hfirst, h⟩
  · exact .inl ⟨e, hfirst, rfl⟩
  rcases cases_bind h with ⟨e, hrest, rfl⟩ | ⟨ys, _, hrest, hpure⟩
  · exact .inr ⟨y, between, _, hfirst, hrest, rfl⟩
  · cases hpure
    exact .inr ⟨y, between, _, hfirst, hrest, rfl⟩

@[simp] theorem outcome_pure (x : α) : (pure x : Job α).outcome s = (.ok x, s) := rfl

@[simp] theorem outcome_exit (code : Nat) :
    (exit code : Job α).outcome s = (.error (.exit code), s) := rfl

@[simp] theorem outcome_get_bind (f : Session → Job α) :
    (get >>= f : Job α).outcome s = (f s).outcome s := rfl

@[simp] theorem outcome_set_bind (new : Session) (f : PUnit → Job α) :
    (set new >>= f : Job α).outcome s = (f ⟨⟩).outcome new := rfl

@[simp] theorem outcome_say_bind (markup : String) (f : Unit → Job α) :
    (say markup >>= f).outcome s
      = (f ()).outcome { s with shown := s.shown ++ [.text (Markup.plain markup)] } := rfl

@[simp] theorem outcome_display_bind (table : Table) (f : Unit → Job α) :
    (display table >>= f).outcome s
      = (f ()).outcome { s with shown := s.shown ++ [.table table] } := rfl

@[simp] theorem outcome_orCrash {crash : ε → Crash} (e : Except ε α) :
    (orCrash crash e).outcome s = (e.mapError (.crash ∘ crash), s) := rfl

theorem outcome_orCrash_bind {crash : ε → Crash} {e : Except ε α} {f : α → Job β} {x : α}
    (h : e = .ok x) : (orCrash crash e >>= f).outcome s = (f x).outcome s :=
  outcome_bind_ok (by rw [outcome_orCrash, h]; rfl)

/-- A job that goes on after a result was taken over was given one. -/
theorem of_outcome_orCrash_bind {crash : ε → Crash} {e : Except ε α} {f : α → Job β} {y : β}
    (h : (orCrash crash e >>= f).outcome s = (.ok y, s')) :
    ∃ x, e = .ok x ∧ (f x).outcome s = (.ok y, s') := by
  rcases e with e | x
  · cases h
  · exact ⟨x, rfl, h⟩

theorem outcome_onDisk (a : Action ε α) : (onDisk a).outcome s
    = (.ok (a.outcome s.disk).1, { s with disk := (a.outcome s.disk).2 }) := rfl

theorem outcome_onStore_ok {a : Action Backup.Fault α} {x : α} {d : Disk}
    (h : a.outcome s.disk = (.ok x, d)) :
    (onStore a).outcome s = (.ok x, { s with disk := d }) := by
  rw [onStore, outcome_bind_ok (outcome_onDisk a), h]
  rfl

theorem outcome_onStore_error {a : Action Backup.Fault α} {fault : Backup.Fault} {d : Disk}
    (h : a.outcome s.disk = (.error fault, d)) :
    (onStore a).outcome s = (.error (.crash (.store fault)), { s with disk := d }) := by
  rw [onStore, outcome_bind_ok (outcome_onDisk a), h]
  rfl

theorem outcome_nextStamp :
    nextStamp.outcome s = (.ok (s.stamp s.stampsUsed), { s with stampsUsed := s.stampsUsed + 1 }) :=
  rfl

/-! ## Quiet jobs -/

/-- The job leaves the disk, the stamps and the input alone. -/
def Quiet (j : Job α) : Prop := ∀ s : Session, s.Undisturbed (j.outcome s).2

theorem quiet_pure (x : α) : Quiet (pure x) := fun s => .refl s

theorem quiet_exit (code : Nat) : Quiet (exit code : Job α) := fun s => .refl s

theorem quiet_orCrash (crash : ε → Crash) (e : Except ε α) : Quiet (orCrash crash e) :=
  fun s => .refl s

theorem quiet_say (markup : String) : Quiet (say markup) := fun _ => ⟨⟨rfl, rfl, rfl⟩, rfl⟩

theorem quiet_display (table : Table) : Quiet (display table) := fun _ => ⟨⟨rfl, rfl, rfl⟩, rfl⟩

theorem Quiet.bind {j : Job α} {f : α → Job β} (h : Quiet j) (h' : ∀ x, Quiet (f x)) :
    Quiet (j >>= f) := by
  intro s
  have hfirst := h s
  rcases hj : j.outcome s with ⟨e | x, between⟩
  · rw [outcome_bind_error hj]
    rw [hj] at hfirst
    exact hfirst
  · rw [outcome_bind_ok hj]
    rw [hj] at hfirst
    exact hfirst.trans (h' x between)

theorem Quiet.ite {p : Prop} [Decidable p] {j j' : Job α} (h : Quiet j) (h' : Quiet j') :
    Quiet (if p then j else j') := by
  split
  · exact h
  · exact h'

theorem quiet_get_bind {f : Session → Job α} (h : ∀ s : Session, s.Undisturbed ((f s).outcome s).2) :
    Quiet (get >>= f) := h

theorem quiet_fail (message : String) : Quiet (fail message : Job α) :=
  (quiet_say _).bind fun _ => quiet_exit 1

/-- What is shown always can be. -/
theorem exists_outcome_say (markup : String) (s : Session) :
    ∃ s', (say markup).outcome s = (.ok (), s') ∧ s.Undisturbed s' :=
  ⟨_, rfl, quiet_say markup s⟩

/-- One thing after the other is shown. -/
theorem exists_outcome_forIn (f : β → String) (xs : List β) (s : Session) :
    ∃ s', (forIn xs PUnit.unit fun x _ => do
      say (f x)
      pure (ForInStep.yield PUnit.unit) : Job PUnit).outcome s = (.ok ⟨⟩, s')
        ∧ s.Undisturbed s' := by
  induction xs generalizing s with
  | nil => exact ⟨s, rfl, .refl s⟩
  | cons x xs ih =>
    obtain ⟨between, hsay, hbetween⟩ := exists_outcome_say (f x) s
    obtain ⟨s', hrest, hs'⟩ := ih between
    have hfirst : (do
        say (f x)
        pure (ForInStep.yield PUnit.unit) : Job (ForInStep PUnit)).outcome s
          = (.ok (.yield ⟨⟩), between) := (outcome_bind_ok hsay).trans (outcome_pure _)
    refine ⟨s', ?_, hbetween.trans hs'⟩
    rw [List.forIn_cons, outcome_bind_ok hfirst]
    exact hrest

/-! ## What is found out about a project -/

/-- The settings of a project that is there, and what its analysis finds. -/
structure Prospect (s : Session) (project : String) (tags : List String) (settings : Settings)
    (findings : Project.Findings) : Prop where
  resolved : s.disk.resolve (.ofText project) = .ok ((Path.ofText project).resolve s.disk.current)
  there : s.disk.isThere ((Path.ofText project).resolve s.disk.current) = .ok true
  loads : Settings.load s.disk ((Path.ofText project).resolve s.disk.current) s.environment
    = .ok settings
  finds : ∃ files, Project.discover s.disk settings.project Settings.excludedDirectories
      (some settings.trash) = .ok files
    ∧ Project.analyse s.disk files (settings.exclusions ++ tags.map Settings.bareTag) = .ok findings

variable {project : String} {tags : List String} {verbose : Bool} {path : Path}
  {settings : Settings} {findings : Project.Findings}

theorem outcome_projectAt (hpath : s.disk.resolve (.ofText project) = .ok path)
    (hthere : s.disk.isThere path = .ok true) : (projectAt project).outcome s = (.ok path, s) := by
  rw [projectAt, outcome_get_bind, outcome_orCrash_bind hpath, outcome_orCrash_bind hthere]
  rfl

theorem quiet_projectAt (project : String) : Quiet (projectAt project) := by
  refine quiet_get_bind fun s => (quiet_orCrash _ _).bind (fun path => ?_) s
  refine (quiet_orCrash _ _).bind fun there => ?_
  cases there with
  | true => exact quiet_pure path
  | false => exact (quiet_fail _).bind fun _ => quiet_pure path

theorem of_outcome_projectAt (h : (projectAt project).outcome s = (.ok path, s')) :
    s.disk.resolve (.ofText project) = .ok path ∧ s.disk.isThere path = .ok true := by
  rw [projectAt, outcome_get_bind] at h
  obtain ⟨path', hpath, h⟩ := of_outcome_orCrash_bind h
  obtain ⟨there, hthere, h⟩ := of_outcome_orCrash_bind h
  cases there with
  | true =>
    cases h
    exact ⟨hpath, hthere⟩
  | false => cases h

theorem exists_outcome_settingsFor (verbose : Bool)
    (h : Settings.load s.disk path s.environment = .ok settings) :
    ∃ s', (settingsFor path verbose).outcome s = (.ok settings, s') := by
  unfold Settings.load at h
  cases henvironment : Settings.environmentFor s.disk path s.environment with
  | error fault =>
    rw [henvironment] at h
    cases h
  | ok environment =>
    rw [henvironment] at h
    replace h : Settings.check ⟨path, environment⟩ = .ok settings := h
    rw [settingsFor, outcome_get_bind]
    simp only [henvironment, outcome_set_bind, h]
    exact ⟨_, rfl⟩

theorem quiet_settingsFor (path : Path) (verbose : Bool) : Quiet (settingsFor path verbose) := by
  refine quiet_get_bind fun s => ?_
  cases Settings.environmentFor s.disk path s.environment with
  | error fault => exact quiet_fail _ s
  | ok environment =>
    simp only [outcome_set_bind]
    refine (show s.Undisturbed { s with environment } from ⟨⟨rfl, rfl, rfl⟩, rfl⟩).trans ?_
    cases Settings.check ⟨path, environment⟩ with
    | error fault => exact quiet_fail _ _
    | ok settings => exact ⟨⟨rfl, rfl, rfl⟩, rfl⟩

theorem of_outcome_settingsFor (h : (settingsFor path verbose).outcome s = (.ok settings, s')) :
    Settings.load s.disk path s.environment = .ok settings := by
  rw [settingsFor, outcome_get_bind] at h
  unfold Settings.load
  cases henvironment : Settings.environmentFor s.disk path s.environment with
  | error fault =>
    simp only [henvironment] at h
    cases h
  | ok environment =>
    simp only [henvironment, outcome_set_bind] at h
    show Settings.check ⟨path, environment⟩ = _
    cases hcheck : Settings.check ⟨path, environment⟩ with
    | error fault =>
      simp only [hcheck] at h
      cases h
    | ok settings' =>
      simp only [hcheck] at h
      cases h
      rfl

theorem exists_outcome_analyse {files : List Path}
    (hfiles : Project.discover s.disk settings.project Settings.excludedDirectories
      (some settings.trash) = .ok files)
    (h : Project.analyse s.disk files (settings.exclusions ++ tags.map Settings.bareTag)
      = .ok findings) : ∃ s', (analyse settings tags).outcome s = (.ok findings, s') := by
  rw [analyse]
  obtain ⟨between, hsay, hbetween⟩ := exists_outcome_say ("[bold blue]Analyzing project:[/bold blue] "
    ++ Markup.escape (toString settings.project) ++ "\n") s
  rw [← hbetween.disk] at hfiles h
  rw [outcome_bind_ok hsay, outcome_get_bind, outcome_orCrash_bind hfiles]
  obtain ⟨between', hsay', -⟩ := exists_outcome_say "" between
  rw [outcome_bind_ok hsay', outcome_orCrash_bind h]
  exact ⟨_, rfl⟩

theorem quiet_analyse (settings : Settings) (tags : List String) : Quiet (analyse settings tags) := by
  refine (quiet_say _).bind fun _ => quiet_get_bind fun s => ?_
  refine (quiet_orCrash _ _).bind (fun files => ?_) s
  refine (quiet_say _).bind fun _ => (quiet_orCrash _ _).bind fun findings => ?_
  exact fun s => ⟨⟨rfl, rfl, rfl⟩, rfl⟩

theorem of_outcome_analyse (h : (analyse settings tags).outcome s = (.ok findings, s')) :
    ∃ files, Project.discover s.disk settings.project Settings.excludedDirectories
        (some settings.trash) = .ok files
      ∧ Project.analyse s.disk files (settings.exclusions ++ tags.map Settings.bareTag)
        = .ok findings := by
  rw [analyse] at h
  obtain ⟨between, hsay, hbetween⟩ := exists_outcome_say ("[bold blue]Analyzing project:[/bold blue] "
    ++ Markup.escape (toString settings.project) ++ "\n") s
  rw [outcome_bind_ok hsay, outcome_get_bind] at h
  obtain ⟨files, hfiles, h⟩ := of_outcome_orCrash_bind h
  obtain ⟨between', hsay', -⟩ := exists_outcome_say "" between
  rw [outcome_bind_ok hsay'] at h
  obtain ⟨findings', hfindings, h⟩ := of_outcome_orCrash_bind h
  cases h
  rw [hbetween.disk] at hfiles hfindings
  exact ⟨files, hfiles, hfindings⟩

/-- What a command does after it has found out about a project. -/
theorem cases_survey {f : Settings → Project.Findings → Job α} {r : Except Ending α}
    (h : (projectAt project >>= fun path => settingsFor path verbose >>= fun settings =>
      analyse settings tags >>= fun findings => f settings findings).outcome s = (r, s')) :
    (s.Undisturbed s' ∧ ∀ settings findings, ¬ Prospect s project tags settings findings)
      ∨ ∃ settings findings between, Prospect s project tags settings findings
        ∧ s.Undisturbed between ∧ (f settings findings).outcome between = (r, s') := by
  -- the project
  rcases cases_bind h with ⟨e, hpath, rfl⟩ | ⟨path, between, hpath, h⟩
  · refine .inl ⟨by simpa [hpath] using quiet_projectAt project s, fun settings findings hp => ?_⟩
    rw [outcome_projectAt hp.resolved hp.there] at hpath
    cases hpath
  obtain ⟨hresolve, hthere⟩ := of_outcome_projectAt hpath
  rw [outcome_projectAt hresolve hthere, Prod.mk.injEq] at hpath
  obtain rfl := hpath.2
  have hresolved : path = (Path.ofText project).resolve s.disk.current := by
    unfold Disk.resolve at hresolve
    split at hresolve <;> cases hresolve
    rfl
  subst hresolved
  -- the settings
  have hquiet := quiet_settingsFor ((Path.ofText project).resolve s.disk.current) verbose s
  rcases cases_bind h with ⟨e, hsettings, rfl⟩ | ⟨settings, between, hsettings, h⟩
  · refine .inl ⟨by simpa [hsettings] using hquiet, fun settings findings hp => ?_⟩
    obtain ⟨s'', hno⟩ := exists_outcome_settingsFor verbose hp.loads
    rw [hsettings] at hno
    cases hno
  rw [hsettings] at hquiet
  have hloads := of_outcome_settingsFor hsettings
  -- the findings
  have hquiet' := quiet_analyse settings tags between
  rcases cases_bind h with ⟨e, hfindings, rfl⟩ | ⟨findings, between', hfindings, h⟩
  · rw [hfindings] at hquiet'
    refine .inl ⟨hquiet.trans hquiet', fun settings' findings hp => ?_⟩
    have hsame := hp.loads
    rw [hloads] at hsame
    cases hsame
    obtain ⟨files, hfiles, hfinds⟩ := hp.finds
    rw [← hquiet.disk] at hfiles hfinds
    obtain ⟨s'', hno⟩ := exists_outcome_analyse hfiles hfinds
    rw [hfindings] at hno
    cases hno
  rw [hfindings] at hquiet'
  have hfinds := of_outcome_analyse hfindings
  rw [hquiet.disk] at hfinds
  exact .inr ⟨settings, findings, between', ⟨hresolve, hthere, hloads, hfinds⟩,
    hquiet.trans hquiet', h⟩

/-- Only one thing can be found out. -/
theorem Prospect.unique {settings' : Settings} {findings' : Project.Findings}
    (h : Prospect s project tags settings findings)
    (h' : Prospect s project tags settings' findings') :
    settings' = settings ∧ findings' = findings := by
  have hloads := h'.loads
  rw [h.loads] at hloads
  cases hloads
  obtain ⟨files, hfiles, hfinds⟩ := h.finds
  obtain ⟨files', hfiles', hfinds'⟩ := h'.finds
  rw [hfiles] at hfiles'
  cases hfiles'
  rw [hfinds] at hfinds'
  cases hfinds'
  exact ⟨rfl, rfl⟩

end Job

end SuperForward.CommandLine
