/-
  The program.

  The files of the project, and those of the directory that copies go to, are read into a file
  system as a value; the run is worked out on it; and the changes that it made are then made to
  the real files, in the same order. When the user is asked, the run is worked out again with
  one more line. Nothing is decided here.
-/
import Std.Time
import SuperForward.CommandLine.Run
import SuperForward.Terminal

namespace SuperForward.CommandLine

open SuperForward.Files (Path Location Lock FileSystem Change Disk)
open SuperForward.Settings (Environment)

/-! ## Files -/

/-- How a location is written. -/
def locationText (place : Location) : String := "/" ++ "/".intercalate place

/-- The lock of a file: one that cannot be opened for adding to it may only be read. -/
def lockOf (place : Location) : IO (Option Lock) := do
  try
    discard (IO.FS.Handle.mk (locationText place) .append)
    return none
  catch _ => return some .readOnly

/-- Adds to a file system what is below a location on the real one. -/
partial def readBelow (fs : FileSystem) (place : Location) : IO FileSystem := do
  let path := (← IO.currentDir) / locationText place
  if ← path.isDir then
    let mut fs := fs.withDirectory place
    for entry in ← path.readDir do
      fs ← readBelow fs (place ++ [entry.fileName])
    return fs
  else if ← path.pathExists then
    let bytes := (← IO.FS.readBinFile path).toList
    return (fs.withFile place bytes).setLock place (← lockOf place)
  else return fs

/-- Makes a change on the real file system. -/
def makeChange : Change → IO Unit
  | .makeDirectory place => IO.FS.createDir (locationText place)
  | .writeFile place bytes => IO.FS.writeBinFile (locationText place) ⟨bytes.toArray⟩
  | .rename source target => IO.FS.rename (locationText source) (locationText target)
  | .protect place =>
    let right : IO.AccessRight := { read := true }
    IO.setAccessRights (locationText place) { user := right, group := right, other := right }
  | .refuse _ => pure ()

/-! ## Environment -/

/-- The values of some names. -/
def valuesOfNames (names : List String) : IO Environment := do
  let mut environment := OrderedMap.empty
  for name in names do
    if let some value ← IO.getEnv name then environment := environment.insert name value
  return environment

/-- The names that matter for a project: those of the settings, and those in its environment
file. -/
def namesFor (d : Disk) (project : Path) : List String :=
  let text := (d.read (project.join (.ofText Settings.environmentFile))).toOption.bind fun bytes =>
    (Text.Utf8.decode bytes).toOption
  Settings.names ++ (text.map Settings.EnvFile.namesIn).getD []

/-- The encoding of the terminal, as far as the locale says. -/
def terminalEncoding : IO String := do
  let mut stated := none
  for name in ["LC_ALL", "LC_CTYPE", "LANG"] do
    if stated.isNone then stated := (← IO.getEnv name).bind Terminal.encodingOfLocale
  return Terminal.encoding stated "utf-8"

/-! ## Stamps -/

/-- Stamps for the present moment, numbered from a random number on. -/
def presentStamps : IO (Nat → Backup.Stamp) := do
  let now ← Std.Time.PlainDateTime.now
  let clock : Backup.Clock := {
    year := now.year.toInt.toNat
    month := now.month.val.toNat
    day := now.day.val.toNat
    hour := now.hour.val.toNat
    minute := now.minute.val.toNat
    second := now.second.val.toNat
    microsecond := now.nanosecond.val.toNat / 1000 }
  let start := (← IO.getRandomBytes 3).foldl (fun n b => n * 256 + b.toNat) 0
  return fun n => Backup.Stamp.make clock ((start + n) % Nat.pow 2 24)

/-! ## Runs -/

/-- The project that a request is about. -/
def projectPath (current : Path) : Option Request → Path
  | some (.run _ command) => (Path.ofText command.project).resolve current
  | _ => current

/-- Shows what was not shown before. -/
def showFrom (encoding : String) (before : Nat) (shown : List Shown) : IO Unit := do
  for s in shown.drop before do
    IO.println (Terminal.shown encoding s.asText)

/-- Works out a run, and again each time the user answers. -/
partial def converse (encoding : String) (args : List String) (s : Session) (shownBefore : Nat) :
    IO Result := do
  let result := run args s
  showFrom encoding shownBefore result.session.shown
  match result.ending with
  | .noAnswer =>
    IO.print "Proceed with cleanup? [y/N]: "
    (← IO.getStdout).flush
    let line ← (← IO.getStdin).getLine
    if line.isEmpty then return result
    converse encoding args { s with input := s.input ++ [line] } result.session.shown.length
  | _ => return result

/-- Runs the program. -/
def runProgram (args : List String) : IO UInt32 := do
  let current := Path.ofText (← IO.currentDir).toString
  let project := projectPath current (readRequest args)
  let files ← readBelow (FileSystem.empty.withDirectory current.parts) project.parts
  let environment ← valuesOfNames (namesFor (.start files current) project)
  let trash := (Settings.mk project environment).trash.resolve current
  let files ← if trash.isWithin project then pure files else readBelow files trash.parts
  let session := Session.start (.start files current) environment [] (← presentStamps)
  let result ← converse (← terminalEncoding) args session 0
  for change in result.session.disk.journal do
    makeChange change
  for entry in Log.shown result.session.threshold result.session.log do
    IO.eprintln entry.render
  if let some crash := result.crash? then IO.eprintln crash.message
  return .ofNat result.exitCode

end SuperForward.CommandLine

/-- The entry point of the program. -/
def main (args : List String) : IO UInt32 := SuperForward.CommandLine.runProgram args
