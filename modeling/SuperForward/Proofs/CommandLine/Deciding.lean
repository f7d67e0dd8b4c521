/-
  When files are changed.

  A list of the forwards leaves the disk alone. Cleaning does, too, unless it proceeds: the
  project can be analysed, what could not be read may be skipped, something was found, the run is
  not a dry one, and the user agrees.
-/
import SuperForward.Proofs.CommandLine.Jobs

namespace SuperForward.CommandLine

namespace Job

variable {s s' : Session} {project : String} {tags : List String} {verbose : Bool}

/-! ## Listing -/

/-- The forwards of a project are listed without touching the disk. -/
theorem quiet_audit (verbose : Bool) (project : String) (tags : List String) :
    Quiet (audit verbose project tags) := by
  refine (quiet_projectAt _).bind fun path => (quiet_settingsFor _ _).bind fun settings =>
    (quiet_analyse _ _).bind fun findings => ?_
  have hlist : Quiet (if findings.analysis.removed.isEmpty = true then
      say "[bold green]No removable super methods found![/bold green]"
    else do
      display (removedTable "Removable Super Methods" settings.project findings.analysis.removed)
      say "\n[bold yellow]Summary:[/bold yellow]"
      say ("  Files scanned: " ++ toString findings.files.length)
      say ("  Removable methods: " ++ toString findings.analysis.removed.length)
      say "[dim]Use 'super-reaper clean' to remove them[/dim]") :=
    (quiet_say _).ite ((quiet_display _).bind fun _ => (quiet_say _).bind fun _ =>
      (quiet_say _).bind fun _ => (quiet_say _).bind fun _ => quiet_say _)
  exact hlist.ite ((quiet_say _).bind fun _ => (quiet_display _).bind fun _ =>
    (quiet_say _).bind fun _ => hlist)

/-! ## Asking -/

/-- What a line answers, if anything. -/
def answer? (line : String) : Option Bool :=
  let answer := Text.trim (Text.toLower line)
  if answer == "y" || answer == "yes" then some true
  else if answer == "n" || answer == "no" || answer == "" then some false
  else none

/-- What the user answers: the first line that answers counts. -/
def answerOf (lines : List String) : Option Bool := lines.findSome? answer?

theorem exists_outcome_askUser (lines : List String) (s : Session) :
    ∃ s', (askUser lines).outcome s = ((answerOf lines).elim (.error .noAnswer) .ok, s')
      ∧ s.Untouched s' := by
  induction lines generalizing s with
  | nil => exact ⟨s, rfl, rfl, rfl, rfl⟩
  | cons line rest ih =>
    have hmodify : (modify fun s => { s with input := rest } : Job PUnit).outcome s
        = (.ok ⟨⟩, { s with input := rest }) := rfl
    rw [askUser, outcome_bind_ok hmodify, answerOf, List.findSome?_cons, answer?]
    dsimp only
    split
    · exact ⟨_, rfl, rfl, rfl, rfl⟩
    split
    · exact ⟨_, rfl, rfl, rfl, rfl⟩
    · obtain ⟨s', hrest, hsame⟩ := ih { s with input := rest }
      exact ⟨s', hrest, hsame.disk, hsame.stamp, hsame.stampsUsed⟩

/-- What the user has answered is told by the outcome. -/
theorem of_outcome_askUser {lines : List String} {r : Except Ending Bool}
    (h : (askUser lines).outcome s = (r, s')) :
    s.Untouched s' ∧ (answerOf lines = some true ↔ r = .ok true) := by
  obtain ⟨s'', hasked, hsame⟩ := exists_outcome_askUser lines s
  rw [hasked, Prod.mk.injEq] at h
  obtain ⟨rfl, rfl⟩ := h
  refine ⟨hsame, ?_⟩
  cases answerOf lines <;> simp

/-! ## Cleaning -/

/-- Files are changed: there is something to remove, all scripts could be read or those that
could not are to be skipped, the run is not a dry one, and the user agrees or agreed before. -/
structure Proceeds (s : Session) (project : String) (tags : List String)
    (dryRun yes skip : Bool) (settings : Settings) (findings : Project.Findings) : Prop where
  prospect : Prospect s project tags settings findings
  refusals : findings.refusals = [] ∨ skip = true
  removed : findings.analysis.removed ≠ []
  wet : dryRun = false
  agreed : yes = true ∨ answerOf s.input = some true

theorem quiet_checkRefusals (settings : Settings) (refusals : List Script.Refusal) (skip : Bool) :
    Quiet (checkRefusals settings refusals skip) := by
  unfold checkRefusals
  refine Quiet.ite (quiet_pure _) ((quiet_display _).bind fun _ => ?_)
  exact Quiet.ite (quiet_say _) (quiet_fail _)

/-- Refused scripts end the cleaning if they are not to be skipped. -/
theorem of_outcome_checkRefusals {settings : Settings} {refusals : List Script.Refusal}
    {skip : Bool} (h : (checkRefusals settings refusals skip).outcome s = (.ok (), s')) :
    refusals = [] ∨ skip = true := by
  cases refusals with
  | nil => exact .inl rfl
  | cons refusal refusals =>
    cases skip with
    | true => exact .inr rfl
    | false => cases h

theorem exists_outcome_checkRefusals (settings : Settings) {refusals : List Script.Refusal}
    {skip : Bool} (h : refusals = [] ∨ skip = true) (s : Session) :
    ∃ s', (checkRefusals settings refusals skip).outcome s = (.ok (), s') := by
  cases refusals with
  | nil => exact ⟨_, rfl⟩
  | cons refusal refusals =>
    obtain rfl := h.resolve_left (List.cons_ne_nil _ _)
    exact ⟨_, rfl⟩

/-- What is done about the methods that were found. -/
def carryOut (settings : Settings) (removed : List Removed) (dryRun yes : Bool) : Job Unit := do
  if removed.isEmpty then
    say "[bold green]Project is clean. No removable super methods found.[/bold green]"
  else
    display (removedTable "Methods to Remove" settings.project removed)
    if dryRun then
      say "\n[bold blue]DRY RUN - No changes were made[/bold blue]"
    else
      unless yes do
        say "\n[bold yellow]Warning:[/bold yellow] This will modify files in place."
        if !(← askUser (← get).input) then
          say "[red]Aborted[/red]"
          exit 0
      pruneAll settings removed

/-- The files are changed, or nothing is. -/
theorem cases_carryOut {settings : Settings} {removed : List Removed} {dryRun yes : Bool}
    {r : Except Ending Unit} (h : (carryOut settings removed dryRun yes).outcome s = (r, s')) :
    (s'.disk = s.disk
        ∧ ¬ (removed ≠ [] ∧ dryRun = false ∧ (yes = true ∨ answerOf s.input = some true)))
      ∨ (removed ≠ [] ∧ dryRun = false ∧ (yes = true ∨ answerOf s.input = some true))
        ∧ ∃ between, s.Untouched between ∧ (pruneAll settings removed).outcome between = (r, s') := by
  unfold carryOut at h
  cases removed with
  | nil =>
    cases h
    exact .inl ⟨rfl, by simp⟩
  | cons first rest =>
  cases dryRun with
  | true =>
    cases h
    exact .inl ⟨rfl, by simp⟩
  | false =>
  cases yes with
  | true =>
    replace h : (display _ >>= fun _ => pruneAll settings (first :: rest)).outcome s = (r, s') := h
    rw [outcome_display_bind] at h
    refine .inr ⟨⟨List.cons_ne_nil _ _, rfl, .inl rfl⟩, _, ?_, h⟩
    exact ⟨rfl, rfl, rfl⟩
  | false =>
    -- the user is asked
    replace h : (display _ >>= fun _ =>
      say "\n[bold yellow]Warning:[/bold yellow] This will modify files in place." >>= fun _ =>
      get >>= fun now => askUser now.input >>= fun agreed =>
      if !agreed then say "[red]Aborted[/red]" >>= fun _ => exit 0
      else pruneAll settings (first :: rest)).outcome s = (r, s') := h
    rw [outcome_display_bind, outcome_say_bind, outcome_get_bind] at h
    rcases cases_bind h with ⟨e, hasked, rfl⟩ | ⟨agreed, between, hasked, h⟩
    · obtain ⟨hsame, hanswer⟩ := of_outcome_askUser hasked
      exact .inl ⟨hsame.disk, fun hall => by simpa [hanswer] using hall.2.2⟩
    obtain ⟨hsame, hanswer⟩ := of_outcome_askUser hasked
    cases agreed with
    | true =>
      exact .inr ⟨⟨List.cons_ne_nil _ _, rfl, .inr (hanswer.2 rfl)⟩, between,
        ⟨hsame.disk, hsame.stamp, hsame.stampsUsed⟩, h⟩
    | false =>
      cases h
      exact .inl ⟨hsame.disk, fun hall => by simpa [hanswer] using hall.2.2⟩

/-- Cleaning leaves the disk as it is, or it proceeds to change the files. -/
theorem cases_clean {dryRun yes skip : Bool} {r : Except Ending Unit}
    (h : (clean verbose project tags dryRun yes skip).outcome s = (r, s')) :
    (s'.disk = s.disk ∧ ∀ settings findings,
        ¬ Proceeds s project tags dryRun yes skip settings findings)
      ∨ ∃ settings findings between, Proceeds s project tags dryRun yes skip settings findings
        ∧ s.Untouched between
        ∧ (pruneAll settings findings.analysis.removed).outcome between = (r, s') := by
  have hclean : clean verbose project tags dryRun yes skip
      = (projectAt project >>= fun path => settingsFor path verbose >>= fun settings =>
        analyse settings tags >>= fun findings =>
        checkRefusals settings findings.refusals skip >>= fun _ =>
        carryOut settings findings.analysis.removed dryRun yes) := rfl
  rw [hclean] at h
  rcases cases_survey h with ⟨hsame, hnone⟩ | ⟨settings, findings, between, hprospect, hsame, h⟩
  · exact .inl ⟨hsame.disk, fun _ _ hp => hnone _ _ hp.prospect⟩
  -- there is at most one way to proceed, so it is enough to refute that one
  have hunique : ∀ settings' findings',
      Proceeds s project tags dryRun yes skip settings' findings' →
        Proceeds s project tags dryRun yes skip settings findings := by
    intro settings' findings' hp
    obtain ⟨rfl, rfl⟩ := hprospect.unique hp.prospect
    exact hp
  have hquiet := quiet_checkRefusals settings findings.refusals skip between
  rcases cases_bind h with ⟨e, hrefused, rfl⟩ | ⟨_, between', hpassed, h⟩
  · rw [hrefused] at hquiet
    refine .inl ⟨(hsame.trans hquiet).disk, fun settings' findings' hp => ?_⟩
    obtain ⟨s'', hno⟩ := exists_outcome_checkRefusals settings (hunique _ _ hp).refusals between
    rw [hrefused] at hno
    cases hno
  rw [hpassed] at hquiet
  have hall := hsame.trans hquiet
  have hinput := hall.input
  rcases cases_carryOut h with ⟨hdisk, hnot⟩ | ⟨⟨hremoved, hwet, hagreed⟩, last, hlast, h⟩
  · refine .inl ⟨hdisk.trans hall.disk, fun settings' findings' hp => ?_⟩
    have hp := hunique _ _ hp
    exact hnot ⟨hp.removed, hp.wet, hinput ▸ hp.agreed⟩
  · exact .inr ⟨settings, findings, last,
      ⟨hprospect, of_outcome_checkRefusals hpassed, hremoved, hwet, hinput ▸ hagreed⟩,
      hall.toUntouched.trans hlast, h⟩

end Job

end SuperForward.CommandLine
