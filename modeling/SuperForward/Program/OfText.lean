/-
  Adding scripts to a program by their text.
-/
import SuperForward.Program.OfTree
import SuperForward.Script.OfText

namespace SuperForward.Program

/-- Reads a text and appends it as a script; a text that is refused changes nothing. -/
def addText (p : Program) (path text : String) : Except Script.Refusal (Program × Handle) :=
  match Script.read text with
  | .ok statements => .ok (p.addScript path text.length statements)
  | .error error => .error ⟨path, error⟩

end SuperForward.Program
