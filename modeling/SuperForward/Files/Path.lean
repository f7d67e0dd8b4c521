/-
  Paths.

  A path is absolute or relative and has parts. Empty parts and single dots are dropped when a
  path is read, double dots are kept, and exactly two leading slashes are not the same as one.
-/
import SuperForward.Data.StableSort
import SuperForward.Text.Pieces

namespace SuperForward.Files

/-- Where a path begins. -/
inductive Anchor where
  | relative | slash | twoSlashes
  deriving DecidableEq, Repr, Inhabited

namespace Anchor

/-- How the beginning of a path is written. -/
def text : Anchor → String
  | .relative => ""
  | .slash => "/"
  | .twoSlashes => "//"

end Anchor

/-- A path. -/
structure Path where
  anchor : Anchor
  parts : List String
  deriving DecidableEq, Repr, Inhabited

namespace Path

/-- How a text begins as a path. -/
def anchorOf : List Char → Anchor
  | '/' :: '/' :: '/' :: _ => .slash
  | '/' :: '/' :: _ => .twoSlashes
  | '/' :: _ => .slash
  | _ => .relative

/-- A part that counts. -/
def isPart (s : String) : Bool := s != "" && s != "."

/-- The path that a text stands for. -/
def ofText (s : String) : Path :=
  ⟨anchorOf s.toList, (Text.piecesAt '/' s).filter isPart⟩

/-- How a path is written. -/
protected def toString (p : Path) : String :=
  match p.anchor, p.parts with
  | .relative, [] => "."
  | anchor, parts => anchor.text ++ "/".intercalate parts

instance : ToString Path := ⟨Path.toString⟩

/-- The path does not depend on a current directory. -/
def isAbsolute (p : Path) : Bool := p.anchor != .relative

/-- A path seen from another one. -/
def join (p q : Path) : Path := if q.isAbsolute then q else ⟨p.anchor, p.parts ++ q.parts⟩

/-- The last part; a path without parts has no name. -/
def name (p : Path) : String := p.parts.getLast?.getD ""

/-- What stands after the last slash when a path is written. -/
def lastWord (p : Path) : String :=
  match p.parts.getLast? with
  | some part => part
  | none => if p.isAbsolute then "" else "."

/-- How a path to something in a directory is written: after the directory, even where the
directory could be left out. -/
def entryText (directory : Path) (name : String) : String :=
  let text := toString directory
  (if text.toList.getLast? == some '/' then text else text ++ "/") ++ name

/-- The path without its last part. -/
def parent (p : Path) : Path := ⟨p.anchor, p.parts.dropLast⟩

/-- Lets each double dot take back the part before it; above the top there is nothing to take
back. -/
def settle (parts : List String) : List String :=
  (parts.foldl (fun settled part => if part == ".." then settled.drop 1 else part :: settled)
    []).reverse

/-- The absolute path without double dots, as seen from a current directory. It begins with one
slash, even if the path begins with two. -/
def resolve (p current : Path) : Path := ⟨.slash, settle (current.join p).parts⟩

/-- The path as seen from a directory above it. -/
def relativeTo? (p above : Path) : Option Path :=
  if p.anchor == above.anchor && above.parts.isPrefixOf p.parts then
    some ⟨.relative, p.parts.drop above.parts.length⟩
  else none

/-- The path is the directory or lies below it. -/
def isWithin (p above : Path) : Bool := (p.relativeTo? above).isSome

/-- What paths are sorted by: the beginning, and then part by part. -/
def sortKey (p : Path) : List String :=
  if p.isAbsolute then p.anchor.text :: p.parts else p.parts

/-- Paths in ascending order, part by part. -/
def sort (paths : List Path) : List Path :=
  StableSort.sortBy (fun a b => StableSort.textsLe a.sortKey b.sortKey) paths

end Path

end SuperForward.Files
