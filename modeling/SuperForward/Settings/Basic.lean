/-
  Settings of a project: which tags protect a method, where copies go, how much is logged, and
  which directories are not looked into.

  They come from the environment, and from the environment file of the project where the
  environment says nothing.
-/
import SuperForward.Files.Disk
import SuperForward.Log
import SuperForward.Settings.EnvFile
import SuperForward.Text.Pieces

namespace SuperForward

open SuperForward.Files (Path Disk)

/-- The project and the environment that its settings are read from. -/
structure Settings where
  project : Path
  environment : Settings.Environment
  deriving Inhabited

namespace Settings

/-- The name of the tags that protect a method. -/
def tagsName : String := "REAPER_EXCLUDE_TAGS"

/-- The name of the directory that copies go to. -/
def trashName : String := "REAPER_TRASH_DIR"

/-- The name of the threshold for the log. -/
def levelName : String := "REAPER_LOG_LEVEL"

/-- The names that settings are read from. -/
def names : List String := [tagsName, trashName, levelName]

/-- The environment file of a project. -/
def environmentFile : String := ".env"

/-- Why there are no settings. -/
inductive Fault where
  /-- The environment file is no text. -/
  | notText (error : Text.Utf8.Error)
  /-- A value of the environment file cannot be taken in. -/
  | badValue (flaw : EnvFile.Flaw)
  /-- No threshold goes by that name. -/
  | unknownLevel (level : String)
  deriving DecidableEq, Repr

/-- The wording of each cause. -/
def Fault.message : Fault → String
  | .notText error => error.message
  | .badValue flaw => flaw.message
  | .unknownLevel level =>
    levelName ++ "=" ++ Text.quoted level ++ " is not a valid logging level."

/-- What the environment says, or what holds otherwise. -/
def valueOr (s : Settings) (name default : String) : String :=
  (s.environment.get? name).getD default

/-- A tag without the at signs before it. -/
def bareTag (tag : String) : String := Text.trimStartOf (· == '@') tag

/-- The tags of a list; the order and the blanks around them do not count. -/
def tagsOf (text : String) : List String :=
  let items := (Text.piecesAt ',' text).map Text.trim
  ((items.filter (· != "")).map bareTag).eraseDups

/-- The tags that protect a method. -/
def exclusions (s : Settings) : List String := tagsOf (s.valueOr tagsName "wizaction")

/-- The directory that copies go to if nothing else is said. -/
def defaultTrash : String := ".reaper_trash"

/-- The directory that copies go to. -/
def trash (s : Settings) : Path :=
  s.project.join (.ofText (s.valueOr trashName defaultTrash))

/-- The name of the threshold for the log, in capitals. -/
def logLevel (s : Settings) : String := Text.toUpper (s.valueOr levelName "WARNING")

/-- The threshold for the log. -/
def threshold (s : Settings) : Nat := (Log.threshold? s.logLevel).getD Log.defaultThreshold

/-- Directories of others, of what is generated, and of tools, which are not looked into. -/
def excludedDirectories : List String := [
  "node_modules", "bower_components", "vendor", "third_party", "extern",
  "dist", "build", "out", "coverage", ".git", ".hg", ".svn", defaultTrash]

/-- The environment together with what the environment file of a project says. -/
def environmentFor (d : Disk) (project : Path) (environment : Environment) :
    Except Fault Environment :=
  match d.read (project.join (.ofText environmentFile)) with
  | .error _ => .ok environment
  | .ok bytes => do
    let text ← (Text.Utf8.decode bytes).mapError .notText
    (EnvFile.load environment text).mapError .badValue

/-- The settings, if the threshold for the log has a name. -/
def check (s : Settings) : Except Fault Settings :=
  match Log.threshold? s.logLevel with
  | some _ => .ok s
  | none => .error (.unknownLevel s.logLevel)

/-- The settings of a project. -/
def load (d : Disk) (project : Path) (environment : Environment) : Except Fault Settings := do
  check ⟨project, ← environmentFor d project environment⟩

end Settings

end SuperForward
