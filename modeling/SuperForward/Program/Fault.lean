/-
  What can go wrong with operations on a program, and how it is said.
-/
import SuperForward.JsType

namespace SuperForward

/-- Nodes are known by their number. -/
abbrev Handle := Nat

/-- The causes of failure. -/
inductive Fault where
  /-- No node has the handle. -/
  | noSuchNode
  /-- The node that is asked about is absent, such as the first child of a leaf. -/
  | absentNode
  /-- A node that has a parent cannot be given another one. -/
  | hasParent (node parent : Handle)
  /-- A node without a parent cannot be detached. -/
  | notAttached (node : Handle)
  /-- The parent of the node does not list it. -/
  | notAmongChildren
  /-- The segments are no qualified name. -/
  | badName (names : List String)
  /-- A superclass that the ancestry does not know. -/
  | unknownParent (name : String)
  /-- A subclass that the ancestry does not know. -/
  | unknownChild (name : String)
  /-- The class has not been declared. -/
  | undeclaredClass (name : String)
  /-- A type that cannot be called has no result. -/
  | notCallable (type : JsType)
  /-- The statement of a candidate is not in the program any more. -/
  | statementGone (name : String)
  deriving DecidableEq, Repr

namespace Fault

/-- The wording of each cause. -/
def message : Fault → String
  | .noSuchNode => "list index out of range"
  | .absentNode => "list indices must be integers or slices, not NoneType"
  | .hasParent node parent =>
    "Node " ++ toString node ++ " already has parent " ++ toString parent
  | .notAttached node => "Node " ++ toString node ++ " is not attached"
  | .notAmongChildren => "list.remove(x): x not in list"
  | .badName names => "Invalid qualified name segments: " ++ Text.quotedTuple names
  | .unknownParent name => "Source " ++ name ++ " is not in G"
  | .unknownChild name => "Target " ++ name ++ " is not in G"
  | .undeclaredClass name => Text.quoted name
  | .notCallable type =>
    Text.quoted type.sort ++ " object has no attribute 'return_type'"
  | .statementGone name =>
    "Cannot remove " ++ name ++ ": its statement is no longer in the program"

end Fault

/-- A computation on a state that may fail; what was done before the failure stays. -/
abbrev Task (σ : Type) := ExceptT Fault (StateM σ)

namespace Task

variable {σ : Type}

/-- Takes over the result of a computation that needs no state. -/
def ofExcept {α : Type} (e : Except Fault α) : Task σ α := ExceptT.mk (pure e)

/-- Runs a task, with the state it leaves. -/
def outcome {α : Type} (t : Task σ α) (s : σ) : Except Fault α × σ := (ExceptT.run t).run s

end Task

end SuperForward
