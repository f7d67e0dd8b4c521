/-
  Walking a program, children before parents.

  The children of a node are noted when the node is first reached, so a visitor may detach
  nodes on the way without making the walk miss or repeat any.
-/
import SuperForward.Program.Navigation

namespace SuperForward.Program

/-- A step that is still to be taken: reach a node, or visit one whose children are done. -/
inductive Step where
  | reach (n : Handle)
  | visit (n : Handle)
  deriving DecidableEq, Repr

variable {σ : Type}

/-- Takes the steps that are left, at most `bound` of them. `program` finds the program in the
state of the walk, and `visitor` gets each node with the parent it has at that moment. -/
def walk (program : σ → Program) (visitor : Handle → Option Handle → Task σ Unit) :
    (bound : Nat) → List Step → Task σ Unit
  | 0, _ | _, [] => pure ()
  | bound + 1, .visit n :: rest => do
    let parent ← Task.ofExcept ((program (← get)).parent n)
    visitor n parent
    walk program visitor bound rest
  | bound + 1, .reach n :: rest => do
    let children ← Task.ofExcept ((program (← get)).children n)
    walk program visitor bound (children.map Step.reach ++ .visit n :: rest)

/-- Visits every node of a subtree after its children. -/
def traverse (program : σ → Program) (visitor : Handle → Option Handle → Task σ Unit)
    (start : Handle) : Task σ Unit := do
  walk program visitor (2 * (program (← get)).size + 1) [.reach start]

end SuperForward.Program
