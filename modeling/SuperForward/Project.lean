/-
  Projects: the scripts in a directory, and their analysis as one program.

  Every file below the directory whose name ends like a script's is one, unless a part of its
  path is excluded or it lies where copies are kept.
-/
import SuperForward.Analysis
import SuperForward.Files.Disk
import SuperForward.Text.Utf8

namespace SuperForward

open SuperForward.Files (Path Disk Location Error)

namespace Project

/-! ## Finding scripts -/

/-- How the names of scripts end. -/
def isScriptName (name : String) : Bool := ".js".toList.isSuffixOf name.toList

/-- Everything below a location, as the names that lead there from it; directories within
directories are entered to some depth. -/
def below (d : Disk) : (depth : Nat) → Location → List Location
  | 0, _ => []
  | depth + 1, place =>
    (d.files.namesIn place).flatMap fun name =>
      let inner := place ++ [name]
      [name] :: (if d.files.isDirectory inner then
        (below d depth inner).map (name :: ·) else [])

/-- The paths below a directory. -/
def pathsBelow (d : Disk) (directory : Path) : Except Error (List Path) := do
  match ← d.find directory with
  | some .directory =>
    let names := below d (d.files.entries.entries.length + 1) (← d.locate directory)
    return names.map fun names => ⟨directory.anchor, directory.parts ++ names⟩
  | _ => return []

/-- The path is that of a script that belongs to the project and does not lie in the trash, which
is a resolved path. -/
def isIncluded (d : Disk) (project : Path) (excluded : List String) (trash : Option Path)
    (path : Path) : Bool :=
  let relative := (path.relativeTo? project).map (·.parts)
  isScriptName path.name
    && !(relative.getD []).any excluded.contains
    && !trash.any (path.resolve d.current).isWithin

/-- The scripts of a project, sorted part by part. -/
def discover (d : Disk) (project : Path) (excluded : List String) (trash : Option Path) :
    Except Error (List Path) := do
  let trash ← trash.mapM d.resolve
  return Path.sort ((← pathsBelow d project).filter (isIncluded d project excluded trash))

/-! ## Analysis -/

/-- The text of a script, or why there is none. -/
def textOf (d : Disk) (path : Path) : Except Script.Error String :=
  match d.read path with
  | .error error => .error ⟨.origin, .unreadable error.message⟩
  | .ok bytes => (Text.Utf8.decode bytes).mapError fun e => ⟨.origin, .notText e.flaw.reason⟩

/-- Adds scripts one after the other; those that are refused are left out and reported. -/
def addFiles (d : Disk) (p : Program) : List Path → Program × List Script.Refusal
  | [] => (p, [])
  | path :: rest =>
    let name := toString path
    let added := match textOf d path with
      | .ok text => p.addText name text
      | .error error => .error ⟨name, error⟩
    match added with
    | .ok (q, _) => addFiles d q rest
    | .error refusal =>
      let (q, refusals) := addFiles d p rest
      (q, refusal :: refusals)

/-- What was found out about a project. -/
structure Findings where
  files : List Path
  refusals : List Script.Refusal
  analysis : Analysis

/-- Reads all scripts of a project as one program and removes its forwards. -/
def analyse (d : Disk) (files : List Path) (exclusions : List String) : Except Fault Findings := do
  let (program, refusals) := addFiles d .empty files
  return ⟨files, refusals, ← Analysis.ofProgram program exclusions⟩

end Project

end SuperForward
