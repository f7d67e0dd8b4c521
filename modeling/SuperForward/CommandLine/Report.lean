/-
  What a run shows: lines and tables.
-/
import SuperForward.Data.StableSort
import SuperForward.Forward.Removal
import SuperForward.Files.Path
import SuperForward.Markup
import SuperForward.Script.Error

namespace SuperForward.CommandLine

open SuperForward.Files (Path)

/-- A table. -/
structure Table where
  title : String
  header : List String
  rows : List (List String)
  deriving DecidableEq, Repr, Inhabited

namespace Table

/-- The text with blanks after it, up to a width. -/
def padded (width : Nat) (s : String) : String :=
  s ++ String.ofList (List.replicate (width - s.length) ' ')

/-- The width of each column. -/
def widths (t : Table) : List Nat :=
  (t.header :: t.rows).foldl (fun widest row =>
    (List.range (max widest.length row.length)).map fun i =>
      max (widest.getD i 0) ((row.map String.length).getD i 0)) []

/-- A row, its cells as wide as their columns. -/
def line (widths : List Nat) (row : List String) : String :=
  "  ".intercalate (List.zipWith padded widths row)

/-- The table as text. -/
def text (t : Table) : String :=
  "\n".intercalate (t.title :: (t.header :: t.rows).map (line t.widths))

end Table

/-- Something shown: a text, after which a new line begins, or a table. -/
inductive Shown where
  | text (s : String)
  | table (t : Table)
  deriving DecidableEq, Repr

/-- What is shown, as text. -/
def Shown.asText : Shown → String
  | .text s => s
  | .table t => t.text

/-- A path as it is shown for a project: from the project on, if it lies there. -/
def displayPath (path : String) (project : Path) : String :=
  match (Path.ofText path).relativeTo? project with
  | some relative => toString relative
  | none => path

/-- The table of the scripts that were refused. -/
def refusalTable (project : Path) (refusals : List Script.Refusal) : Table :=
  ⟨"Unparsable Files", ["File", "Line", "Error"], refusals.map fun r =>
    [Markup.plainText (displayPath r.path project), toString r.error.place.line,
      Markup.plainText r.detail]⟩

/-- One removed method is listed before another, or at the same place: by path, and then by
where it begins. -/
def listedBefore (a b : Removed) : Bool :=
  let pathA := a.path.getD ""
  let pathB := b.path.getD ""
  if pathA == pathB then decide (a.start ≤ b.start) else decide (pathA < pathB)

/-- The table of removed methods. -/
def removedTable (title : String) (project : Path) (removed : List Removed) : Table :=
  ⟨title, ["Method", "File", "Line"], (StableSort.sortBy listedBefore removed).map fun r =>
    let path := match r.path with
      | some path => if path == "" then "<memory>" else displayPath path project
      | none => "<memory>"
    [Markup.plainText r.name, Markup.plainText path, toString r.line]⟩

end SuperForward.CommandLine
