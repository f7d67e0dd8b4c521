/-
  Names of nodes: the dotted name that a chain of property accesses spells, and the name that a
  function is bound to.
-/
import SuperForward.Program.Navigation
import SuperForward.QualifiedName

namespace SuperForward.Program

/-- The name with these segments, which must be one. -/
def nameOf (names : List String) : Except Fault QualifiedName :=
  match QualifiedName.ofNames? names with
  | some name => .ok name
  | none => .error (.badName names)

/-- The segments that a chain of property accesses spells within some steps, those below it
given; it begins with a name or with `this`. -/
def segmentsWithin (p : Program) : (steps : Nat) → Handle → List String →
    Except Fault (Option (List String))
  | 0, _, _ => .ok none
  | steps + 1, n, below => do
    let node ← p.node n
    match node.kind with
    | .getProp =>
      match node.children.head? with
      | some target => p.segmentsWithin steps target (node.text :: below)
      | none => return none
    | .name => return if node.text == "" then none else some (node.text :: below)
    | .this => return some ("this" :: below)
    | _ => return none

/-- The name that a node spells, if it spells one. -/
def qualifiedName (p : Program) (n : Handle) : Except Fault (Option QualifiedName) := do
  match ← p.segmentsWithin (p.size + 1) n [] with
  | some names => return some (← nameOf names)
  | none => return none

/-- The name that a node spells, where the node may be absent. -/
def qualifiedNameOf (p : Program) (n : Option Handle) : Except Fault (Option QualifiedName) := do
  p.qualifiedName (← present n)

/-- Both nodes spell a name, and it is the same. -/
def sameName (p : Program) (a b : Handle) : Except Fault Bool := do
  match ← p.qualifiedName a with
  | some name => return (← p.qualifiedName b) == some name
  | none => return false

/-- The name that a function carries itself. -/
def ownName (p : Program) (fn : Handle) : Except Fault (Option QualifiedName) := do
  let some n ← p.firstChild fn | return none
  let node ← p.node n
  if node.kind == .name && node.text != "" then return some (← nameOf [node.text])
  else return none

/-- The name that a function is bound to: the target of its assignment, the variable that it
initialises, or the name it carries itself. -/
def functionName (p : Program) (fn : Handle) : Except Fault (Option QualifiedName) := do
  let some above ← p.parent fn | p.ownName fn
  let node ← p.node above
  if node.kind == .assign && node.children.head? != some fn then
    p.qualifiedNameOf node.children.head?
  else if node.kind == .name then p.qualifiedName above
  else p.ownName fn

end SuperForward.Program
