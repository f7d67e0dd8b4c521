/-
  Analysis: reading scripts into one program, determining its types, and removing its forwards.
-/
import SuperForward.Forward.Remove
import SuperForward.Program.OfText
import SuperForward.Types.Typing

namespace SuperForward

/-- A script: its path and its text. -/
structure Source where
  path : String
  text : String
  deriving DecidableEq, Repr, Inhabited

namespace Program

/-- Adds scripts one after the other; those that are refused are left out and reported. -/
def addSources (p : Program) : List Source → Program × List Script.Refusal
  | [] => (p, [])
  | s :: rest =>
    match p.addText s.path s.text with
    | .ok (q, _) => q.addSources rest
    | .error refusal =>
      let (q, refusals) := p.addSources rest
      (q, refusal :: refusals)

/-- The program of some scripts, and those that were refused. -/
def ofSources (sources : List Source) : Program × List Script.Refusal := empty.addSources sources

end Program

namespace Typing

/-- Determines the types of a program with nothing declared before. -/
def ofProgram (p : Program) : Except Fault Typing :=
  match determine.outcome (start p .empty) with
  | (.ok (), a) => .ok a
  | (.error fault, _) => .error fault

end Typing

/-- The forwards that were removed, and the state after removal. -/
structure Analysis where
  typing : Typing
  removal : Removal
  removed : List Removed

namespace Analysis

/-- Removes the forwards of a typed program. -/
def ofTyping (a : Typing) (exclusions : List String) : Except Fault Analysis :=
  match (Removal.process Program.root).outcome (.start a.program a.registry exclusions) with
  | (.ok removed, removal) => .ok ⟨a, removal, removed⟩
  | (.error fault, _) => .error fault

/-- Determines the types of a program and removes its forwards. -/
def ofProgram (p : Program) (exclusions : List String) : Except Fault Analysis := do
  ofTyping (← Typing.ofProgram p) exclusions

/-- What was noted down on the way. -/
def log (a : Analysis) : List Log.Entry := a.typing.log ++ a.removal.log

end Analysis

end SuperForward
