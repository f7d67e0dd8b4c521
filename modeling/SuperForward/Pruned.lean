/-
  Pruned scripts: the texts of scripts without their removed methods.
-/
import SuperForward.Analysis
import SuperForward.Files.Path
import SuperForward.Text.Cut

namespace SuperForward

open SuperForward.Files (Path)
open SuperForward.Text (Span BeyondEnd)

namespace Removed

/-- The part of the text that the method takes up. -/
def span (r : Removed) : Span := ⟨r.start, r.stop⟩

/-- The path of the script, if it has one. -/
def scriptPath? (r : Removed) : Option Path :=
  r.path.bind fun path => if path == "" then none else some (.ofText path)

end Removed

/-- A script without its removed methods, and how many places were cut. -/
structure Pruned where
  path : Path
  text : String
  count : Nat
  deriving DecidableEq, Repr

namespace Pruned

/-- Adds a value to those of a key. -/
def addTo {α : Type} (m : OrderedMap Path (List α)) (path : Path) (a : α) :
    OrderedMap Path (List α) :=
  m.insert path ((m.get? path).getD [] ++ [a])

/-- The removed methods by the path of their script, in the order in which paths come first. -/
def byPath (removed : List Removed) : OrderedMap Path (List Removed) :=
  removed.foldl (fun m r =>
    match r.scriptPath? with
    | some path => addTo m path r
    | none => m) .empty

/-- The parts to cut by the path of their script. -/
def spansByPath (removed : List Removed) : List (Path × List Span) :=
  (byPath removed).entries.map fun (path, rs) => (path, rs.map Removed.span)

/-- The text of the last source with a path. -/
def textAt? (sources : List Source) (path : Path) : Option String :=
  (sources.reverse.find? fun s => decide (Path.ofText s.path = path)).map (·.text)

/-- The scripts that have removed methods, without them. -/
def ofSources (sources : List Source) (removed : List Removed) :
    Except BeyondEnd (List Pruned) :=
  (spansByPath removed).mapM fun (path, spans) => do
    let (text, count) ← Text.removeSpans ((textAt? sources path).getD "") spans
    return ⟨path, text, count⟩

end Pruned

end SuperForward
