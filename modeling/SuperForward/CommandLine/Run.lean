/-
  The commands: listing the forwards of a project, removing them, and restoring a file.

  Nothing is changed before all scripts have been read and, unless it was said beforehand, the
  user has agreed. Each file is backed up before it is written anew.
-/
import SuperForward.Backup.Store
import SuperForward.CommandLine.Arguments
import SuperForward.CommandLine.Report
import SuperForward.Project
import SuperForward.Pruned
import SuperForward.Settings.Basic

namespace SuperForward.CommandLine

open SuperForward.Files (Path Disk Action)
open SuperForward.Json (Value)
open SuperForward.Settings (Environment)

/-- What a run works on: the disk, the environment, the lines that the user will have typed,
the stamps for new copies, and what was shown, noted down and set so far. -/
structure Session where
  disk : Disk
  environment : Environment
  input : List String
  stamp : Nat → Backup.Stamp
  stampsUsed : Nat
  shown : List Shown
  log : List Log.Entry
  threshold : Nat

/-- A session in which nothing has happened yet. -/
def Session.start (disk : Disk) (environment : Environment) (input : List String)
    (stamp : Nat → Backup.Stamp) : Session :=
  ⟨disk, environment, input, stamp, 0, [], [], Log.defaultThreshold⟩

/-- A failure that no command expects. -/
inductive Crash where
  | files (error : Files.Error)
  | store (fault : Backup.Fault)
  | program (fault : Fault)
  | cut (fault : Text.BeyondEnd)
  | text (error : Text.Utf8.Error)
  deriving DecidableEq, Repr

namespace Crash

/-- The wording of a failure. -/
def message : Crash → String
  | .files error => error.message
  | .store fault => fault.message
  | .program fault => fault.message
  | .cut fault => fault.message
  | .text error => error.message

end Crash

/-- How a run ends before its last step. -/
inductive Ending where
  | exit (code : Nat)
  /-- The user was asked, and there was no line left. -/
  | noAnswer
  | crash (crash : Crash)
  deriving DecidableEq, Repr

/-- A computation of a run. -/
abbrev Job := ExceptT Ending (StateM Session)

namespace Job

variable {α : Type}

/-- Shows a text with markup. -/
def say (markup : String) : Job Unit :=
  modify fun s => { s with shown := s.shown ++ [.text (Markup.plain markup)] }

/-- Shows a table. -/
def display (table : Table) : Job Unit :=
  modify fun s => { s with shown := s.shown ++ [.table table] }

/-- Ends the run. -/
def exit (code : Nat) : Job α := throw (.exit code)

/-- Ends the run with an error that is shown. -/
def fail (message : String) : Job α := do
  say ("[bold red]Error:[/bold red] " ++ Markup.escape message)
  exit 1

/-- Takes over a result that no command expects to be missing. -/
def orCrash {ε : Type} (crash : ε → Crash) (e : Except ε α) : Job α :=
  ExceptT.mk (pure (e.mapError (.crash ∘ crash)))

/-- Uses the disk; what was changed before a failure stays. -/
def onDisk {ε : Type} (a : Action ε α) : Job (Except ε α) := do
  let s ← get
  let (result, disk) := a.outcome s.disk
  set { s with disk }
  return result

/-- Uses the backup store; no failure is expected. -/
def onStore (a : Action Backup.Fault α) : Job α := do orCrash .store (← onDisk a)

/-- The next stamp. -/
def nextStamp : Job Backup.Stamp := do
  let s ← get
  set { s with stampsUsed := s.stampsUsed + 1 }
  return s.stamp s.stampsUsed

/-! ## Beginning -/

/-- The directory of the project, which must be there. -/
def projectAt (text : String) : Job Path := do
  let d := (← get).disk
  let path ← orCrash .files (d.resolve (.ofText text))
  if !(← orCrash .files (d.isThere path)) then fail ("Project path does not exist: " ++ text)
  return path

/-- The settings of a project; they decide how much is logged, unless everything is. -/
def settingsFor (project : Path) (verbose : Bool) : Job Settings := do
  let s ← get
  match Settings.environmentFor s.disk project s.environment with
  | .error fault => fail fault.message
  | .ok environment =>
    set { s with environment }
    match Settings.check ⟨project, environment⟩ with
    | .error fault => fail fault.message
    | .ok settings =>
      modify fun s => { s with threshold := if verbose then 10 else settings.threshold }
      return settings

/-- Analyses a project. The line of its progress ends before anything else is shown. -/
def analyse (settings : Settings) (tags : List String) : Job Project.Findings := do
  say ("[bold blue]Analyzing project:[/bold blue] "
    ++ Markup.escape (toString settings.project) ++ "\n")
  let exclusions := settings.exclusions ++ tags.map Settings.bareTag
  let d := (← get).disk
  let files ← orCrash .files
    (Project.discover d settings.project Settings.excludedDirectories (some settings.trash))
  let findings := Project.analyse d files exclusions
  say ""
  let findings ← orCrash .program findings
  modify fun s => { s with log := s.log ++ findings.analysis.log }
  return findings

/-! ## Commands -/

/-- Lists the forwards of a project. -/
def audit (verbose : Bool) (project : String) (tags : List String) : Job Unit := do
  let settings ← settingsFor (← projectAt project) verbose
  let findings ← analyse settings tags
  let refusals := findings.refusals
  unless refusals.isEmpty do
    say ("[bold yellow]Skipped " ++ toString refusals.length
      ++ " unparsable file(s):[/bold yellow]")
    display (refusalTable settings.project refusals)
    say ""
  let removed := findings.analysis.removed
  if removed.isEmpty then
    say "[bold green]No removable super methods found![/bold green]"
  else
    display (removedTable "Removable Super Methods" settings.project removed)
    say "\n[bold yellow]Summary:[/bold yellow]"
    say ("  Files scanned: " ++ toString findings.files.length)
    say ("  Removable methods: " ++ toString removed.length)
    say "[dim]Use 'super-reaper clean' to remove them[/dim]"

/-- Asks the user until a line is an answer: yes, no, or nothing, which means no. -/
def askUser : (lines : List String) → Job Bool
  | [] => throw .noAnswer
  | line :: rest => do
    modify fun s => { s with input := rest }
    let answer := Text.trim (Text.toLower line)
    if answer == "y" || answer == "yes" then return true
    else if answer == "n" || answer == "no" || answer == "" then return false
    else askUser rest

/-- A removed method as it is recorded. -/
def removedValue (r : Removed) : Value := .object [
  ("qualified_name", .string r.name),
  ("file_path", match r.path with
    | some path => .string path
    | none => .null),
  ("line", .int r.line), ("start", .int r.start), ("end", .int r.stop)]

/-- Cuts parts out of a file, and says at how many places. -/
def pruneFile (path : Path) (spans : List Text.Span) : Job (Except Files.Error Nat) := do
  match (← get).disk.read path with
  | .error error => return .error error
  | .ok bytes =>
    let text ← orCrash .text (Text.Utf8.decode bytes)
    let (pruned, count) ← orCrash .cut (Text.removeSpans text spans)
    if count == 0 then return .ok 0
    let written ← onDisk (Action.write path (Text.Utf8.encode pruned))
    return written.map fun _ => count

/-- Backs a file up and writes it without its removed methods. If it cannot be written, it is
restored. The result are the number of places that were cut, and the id of the copy. -/
def cleanFile (store : Backup.Store) (path : Path) (removed : List Removed) :
    Job (Nat × String) := do
  let stamp ← nextStamp
  onStore (store.backup path "super-methods" (removed.map removedValue) stamp)
  match ← pruneFile path (removed.map Removed.span) with
  | .ok count => return (count, stamp.id)
  | .error error =>
    say ("[red]Error rewriting " ++ Markup.escape (toString path) ++ ": "
      ++ Markup.escape error.message ++ ". Restoring...[/red]")
    onStore (store.restore stamp.id)
    exit 1

/-- Removes methods from their files, path by path. -/
def pruneAll (settings : Settings) (removed : List Removed) : Job Unit := do
  let store : Backup.Store := ⟨settings.trash⟩
  onStore store.open
  let files := StableSort.sortBy
    (fun a b => StableSort.textsLe (Path.sortKey a.1) (Path.sortKey b.1))
    (Pruned.byPath removed).entries
  let cleaned ← files.mapM fun (path, removed) => do
    let (count, id) ← cleanFile store path removed
    return (path, count, id)
  let total := (cleaned.map fun (_, count, _) => count).foldl Nat.add 0
  say ("\n[bold green]Removed " ++ toString total ++ " method(s) from "
    ++ toString cleaned.length ++ " file(s).[/bold green]")
  for (path, _, id) in cleaned do
    say ("  " ++ Markup.escape (displayPath (toString path) settings.project)
      ++ " -> backup [cyan]" ++ id ++ "[/cyan]")
  say "[dim]Use 'super-reaper restore <backup-id>' to undo[/dim]"

/-- Scripts that were refused end the cleaning, unless they are to be skipped. -/
def checkRefusals (settings : Settings) (refusals : List Script.Refusal) (skip : Bool) :
    Job Unit := do
  unless refusals.isEmpty do
    display (refusalTable settings.project refusals)
    if skip then
      say "[yellow]Warning: Skipping unparsable files (--skip-unparsable)[/yellow]\n"
    else
      fail (toString refusals.length ++ " file(s) could not be parsed. "
        ++ "Fix them or pass --skip-unparsable.")

/-- Removes the forwards of a project. -/
def clean (verbose : Bool) (project : String) (tags : List String)
    (dryRun yes skipUnparsable : Bool) : Job Unit := do
  let settings ← settingsFor (← projectAt project) verbose
  let findings ← analyse settings tags
  checkRefusals settings findings.refusals skipUnparsable
  let removed := findings.analysis.removed
  if removed.isEmpty then
    say "[bold green]Project is clean. No removable super methods found.[/bold green]"
  else
    display (removedTable "Methods to Remove" settings.project removed)
    if dryRun then
      say "\n[bold blue]DRY RUN - No changes were made[/bold blue]"
    else
      unless yes do
        say "\n[bold yellow]Warning:[/bold yellow] This will modify files in place."
        if !(← askUser (← get).input) then
          say "[red]Aborted[/red]"
          exit 0
      pruneAll settings removed

/-- Restores a file from its copy. -/
def restore (verbose : Bool) (id project : String) : Job Unit := do
  let settings ← settingsFor (← projectAt project) verbose
  let store : Backup.Store := ⟨settings.trash⟩
  onStore store.open
  match ← onDisk (store.restore id) with
  | .ok () => say ("[bold green]Restored backup " ++ Markup.escape id ++ "[/bold green]")
  | .error fault =>
    if fault.isExpected then fail fault.message
    else orCrash .store (.error fault)

/-- Does what a command says. -/
def perform (verbose : Bool) : Command → Job Unit
  | .audit project tags => audit verbose project tags
  | .clean project tags dryRun yes skip => clean verbose project tags dryRun yes skip
  | .restore id project => restore verbose id project

end Job

/-! ## Runs -/

/-- The version of the program. -/
def version : String := "0.3.0"

/-- How a run ended, and what it left. -/
structure Result where
  ending : Ending
  session : Session

namespace Result

/-- The number that a run gives back: zero if all went well. -/
def exitCode (r : Result) : Nat :=
  match r.ending with
  | .exit code => code
  | .noAnswer | .crash _ => 1

/-- The failure that no command expects. -/
def crash? (r : Result) : Option Crash :=
  match r.ending with
  | .crash crash => some crash
  | .exit _ | .noAnswer => none

end Result

/-- Does what was asked for; wrong arguments end the run at once. -/
def fulfil (request : Option Request) : Job Unit :=
  match request with
  | none => Job.exit 2
  | some .help => Job.exit 0
  | some .version => Job.say ("super-reaper " ++ version)
  | some (.run verbose command) => Job.perform verbose command

/-- Does what the arguments say. -/
def run (args : List String) (s : Session) : Result :=
  match (ExceptT.run (fulfil (readRequest args))).run s with
  | (.ok (), s) => ⟨.exit 0, s⟩
  | (.error ending, s) => ⟨ending, s⟩

end SuperForward.CommandLine
