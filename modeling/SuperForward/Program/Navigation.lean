/-
  Finding one's way in a program: children, ancestors, subtrees, and the documentation of a
  function.

  Walks along parent links and down subtrees take no more steps than there are nodes, which is
  enough as long as no node is its own ancestor.
-/
import SuperForward.Program.Basic

namespace SuperForward.Program

/-- The sort of a node. -/
def kind (p : Program) (n : Handle) : Except Fault NodeKind := return (← p.node n).kind

/-- The text of a node. -/
def text (p : Program) (n : Handle) : Except Fault String := return (← p.node n).text

/-- The children of a node, in order. -/
def children (p : Program) (n : Handle) : Except Fault (List Handle) :=
  return (← p.node n).children

/-- The parent of a node. -/
def parent (p : Program) (n : Handle) : Except Fault (Option Handle) := return (← p.node n).parent

/-- The node is of the sort. -/
def isKind (p : Program) (k : NodeKind) (n : Handle) : Except Fault Bool :=
  return (← p.node n).kind == k

/-- The number of children. -/
def childCount (p : Program) (n : Handle) : Except Fault Nat := return (← p.children n).length

/-- The node has exactly one child. -/
def hasOneChild (p : Program) (n : Handle) : Except Fault Bool :=
  return (← p.childCount n) == 1

/-- The child at a position, counted from zero. -/
def childAt (p : Program) (n : Handle) (index : Nat) : Except Fault (Option Handle) :=
  return (← p.children n)[index]?

/-- The first child. -/
def firstChild (p : Program) (n : Handle) : Except Fault (Option Handle) := p.childAt n 0

/-- The second child. -/
def secondChild (p : Program) (n : Handle) : Except Fault (Option Handle) := p.childAt n 1

/-- The last child. -/
def lastChild (p : Program) (n : Handle) : Except Fault (Option Handle) :=
  return (← p.children n).getLast?

/-- The parent of the parent. -/
def grandparent (p : Program) (n : Handle) : Except Fault (Option Handle) := do
  match ← p.parent n with
  | some above => p.parent above
  | none => return none

/-! ## Ancestors -/

/-- The root is met within some steps along the parent links. -/
def reachesRoot (p : Program) : (steps : Nat) → Handle → Except Fault Bool
  | 0, _ => .ok false
  | steps + 1, n =>
    if n = root then .ok true
    else do
      match ← p.parent n with
      | some above => p.reachesRoot steps above
      | none => return false

/-- The node is the root or hangs below it. -/
def isAttached (p : Program) (n : Handle) : Except Fault Bool := p.reachesRoot (p.size + 1) n

/-- The nearest ancestor of one of the sorts within some steps. -/
def enclosingWithin (p : Program) (kinds : List NodeKind) :
    (steps : Nat) → Handle → Except Fault (Option Handle)
  | 0, _ => .ok none
  | steps + 1, n => do
    match ← p.parent n with
    | none => return none
    | some above =>
      if kinds.contains (← p.kind above) then return some above
      else p.enclosingWithin kinds steps above

/-- The nearest ancestor of one of the sorts; the node itself does not count. -/
def enclosing (p : Program) (n : Handle) (kinds : List NodeKind) : Except Fault (Option Handle) :=
  p.enclosingWithin kinds (p.size + 1) n

/-- The path of the script that a node belongs to. -/
def scriptPath (p : Program) (n : Handle) : Except Fault (Option String) := do
  if ← p.isKind .script n then return some (← p.text n)
  match ← p.enclosing n [.script] with
  | some script => return some (← p.text script)
  | none => return none

/-- The scripts, in order. -/
def scripts (p : Program) : Except Fault (List Handle) := p.children root

/-! ## Subtrees -/

/-- The nodes of a subtree, parents before children, no deeper than some levels. -/
def subtreeWithin (p : Program) : (levels : Nat) → Handle → Except Fault (List Handle)
  | 0, _ => .ok []
  | levels + 1, n => do
    let below ← (← p.children n).mapM (p.subtreeWithin levels)
    return n :: below.flatten

/-- The node and all nodes below it, parents before children, siblings in order. -/
def subtree (p : Program) (n : Handle) : Except Fault (List Handle) :=
  p.subtreeWithin (p.size + 1) n

/-! ## Documentation -/

/-- The documentation of a function: its own; or that of the assignment it is the value of; or
that of the declaration whose variable it initialises. -/
def docOfFunction (p : Program) (fn : Handle) : Except Fault (Option DocComment) := do
  let node ← p.node fn
  if node.doc.isSome then return node.doc
  let some parent := node.parent | return none
  let above ← p.node parent
  if above.kind == .assign then return above.doc
  if above.kind != .name then return none
  let some grandparent := above.parent | return none
  let declaration ← p.node grandparent
  return if declaration.kind == .var then declaration.doc else none

end SuperForward.Program
