/-
  The state of removing forwards, and the record of what was removed.
-/
import SuperForward.Data.OrderedMap
import SuperForward.Log
import SuperForward.Program.Names
import SuperForward.Program.Traversal
import SuperForward.Types.Registry

namespace SuperForward

/-- What is known of a removed method: its name, the path of its script, its line, and its
part of the text, documentation included. -/
structure Removed where
  name : String
  path : Option String
  line : Nat
  start : Nat
  stop : Nat
  deriving DecidableEq, Repr, Inhabited

/-- What removal works on: the program, the registry it is judged by, the tags that protect a
method, the candidates by name, and notes on what was changed. -/
structure Removal where
  program : Program
  registry : Registry
  exclusions : List String
  candidates : OrderedMap QualifiedName Handle
  changedScopes : List Handle
  deletedFunctions : List Handle
  log : List Log.Entry
  deriving Inhabited

namespace Removal

/-- The tag that protects a method if nothing else is said. -/
def defaultExclusions : List String := ["wizaction"]

/-- The state before removal. -/
def start (program : Program) (registry : Registry) (exclusions : List String) : Removal :=
  ⟨program, registry, exclusions, .empty, [], [], []⟩

/-- Notes something down. -/
def note (level : Log.Level) (text : String) : Task Removal Unit :=
  modify fun s => { s with log := s.log ++ [⟨level, text⟩] }

/-- Asks the program. -/
def ask {α : Type} (question : Program → Except Fault α) : Task Removal α := do
  Task.ofExcept (question (← get).program)

/-- Edits the program; what was edited before a failure stays. -/
def edit (t : Task Program Unit) : Task Removal Unit := do
  let s ← get
  let (result, program) := t.outcome s.program
  set { s with program }
  Task.ofExcept result

/-- The documentation of a node carries a tag that protects it. -/
def isExcluded (p : Program) (exclusions : List String) (n : Handle) : Except Fault Bool :=
  return (← p.node n).doc.any fun doc => exclusions.any doc.hasTag

/-! ## Notes on changes -/

/-- The scope that a node belongs to: itself, if it is one. -/
def scopeOf (p : Program) (n : Handle) : Except Fault Handle := do
  let scopes : List NodeKind := [.function, .script, .root]
  if scopes.contains (← p.kind n) then return n
  return (← p.enclosing n scopes).getD Program.root

/-- Notes that the scope of a node was changed. -/
def noteChange (n : Handle) : Task Removal Unit := do
  let scope ← ask (scopeOf · n)
  let kind ← ask (·.kind scope)
  note .debug ("Scope changed: " ++ Text.toUpper kind.word ++ " #" ++ toString scope)
  modify fun s => { s with changedScopes := s.changedScopes ++ [scope] }

/-- The functions of a subtree. -/
def functionsOf (p : Program) (n : Handle) : Except Fault (List Handle) := do
  (← p.subtree n).filterM (p.isKind .function)

/-- Notes that the functions of a subtree were deleted. -/
def noteDeleted (n : Handle) : Task Removal Unit := do
  let functions ← ask (functionsOf · n)
  modify fun s => { s with deletedFunctions := s.deletedFunctions ++ functions }

end Removal

end SuperForward
