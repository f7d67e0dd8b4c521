/-
  Programs: all scripts as one tree of numbered nodes.

  Nodes are kept in the order in which they were made, and a handle is a position in that
  order. Parents and children refer to each other by handle. A detached node keeps its number
  and what hangs below it. Node 0 is the root; its children are the scripts.
-/
import SuperForward.DocComment
import SuperForward.Program.Fault

namespace SuperForward

/-- The sorts of nodes. -/
inductive NodeKind where
  | root | script | block | exprResult | var | name | assign | function | paramList | call
  | getProp | getElem | this | returnStmt | string | number | other
  deriving DecidableEq, Repr, Inhabited

namespace NodeKind

/-- The word for a sort of node. -/
def word : NodeKind → String
  | .root => "root"
  | .script => "script"
  | .block => "block"
  | .exprResult => "expr_result"
  | .var => "var"
  | .name => "name"
  | .assign => "assign"
  | .function => "function"
  | .paramList => "param_list"
  | .call => "call"
  | .getProp => "getprop"
  | .getElem => "getelem"
  | .this => "this"
  | .returnStmt => "return"
  | .string => "string"
  | .number => "number"
  | .other => "other"

/-- Every sort of node. -/
def all : List NodeKind := [
  .root, .script, .block, .exprResult, .var, .name, .assign, .function, .paramList, .call,
  .getProp, .getElem, .this, .returnStmt, .string, .number, .other]

/-- The sort that goes by a word. -/
def ofWord? (s : String) : Option NodeKind := all.find? (·.word == s)

end NodeKind

/-- A node. `text` is its identifier, property, literal or path, as its sort has it; `start`
and `stop` are offsets in characters. -/
structure Node where
  kind : NodeKind
  text : String
  children : List Handle
  parent : Option Handle
  doc : Option DocComment
  type : Option JsType
  start : Nat
  stop : Nat
  line : Nat
  deriving DecidableEq, Repr, Inhabited

namespace Node

/-- A node of its own: no parent, no children, nothing said about it. -/
def fresh (kind : NodeKind) (text : String) (start stop line : Nat) : Node :=
  ⟨kind, text, [], none, none, none, start, stop, line⟩

end Node

/-- All nodes, by handle. -/
structure Program where
  nodes : Array Node
  deriving Repr, Inhabited

namespace Program

/-- The handle of the root. -/
def root : Handle := 0

/-- The program without scripts. -/
def empty : Program := ⟨#[.fresh .root "" 0 0 0]⟩

/-- The number of nodes, detached ones included. -/
def size (p : Program) : Nat := p.nodes.size

/-- The node of a handle. -/
def node (p : Program) (n : Handle) : Except Fault Node :=
  match p.nodes[n]? with
  | some node => .ok node
  | none => .error .noSuchNode

/-- The node of a handle that may be absent. -/
def present (n : Option Handle) : Except Fault Handle :=
  match n with
  | some n => .ok n
  | none => .error .absentNode

/-- Changes the node of a handle. -/
def update (p : Program) (n : Handle) (f : Node → Node) : Program := ⟨p.nodes.modify n f⟩

/-- Says what type the value of a node has. -/
def setType (p : Program) (n : Handle) (type : Option JsType) : Program :=
  p.update n fun node => { node with type }

/-- Attaches a documentation comment to a node. -/
def setDoc (p : Program) (n : Handle) (doc : Option DocComment) : Program :=
  p.update n fun node => { node with doc }

/-! ## Editing -/

/-- Attaches a node without a parent as the last child of another. The link to the parent is
made before the parent is looked up. -/
def append (parent child : Handle) : Task Program Unit := do
  let c ← Task.ofExcept ((← get).node child)
  match c.parent with
  | some p => throw (.hasParent child p)
  | none =>
    modify fun p => p.update child fun node => { node with parent := some parent }
    let _ ← Task.ofExcept ((← get).node parent)
    modify fun p => p.update parent fun node => { node with children := node.children ++ [child] }

/-- Makes a node and attaches the given nodes to it, in order. -/
def newNode (node : Node) (children : List Handle) : Task Program Handle := do
  let handle := (← get).size
  modify fun p => ⟨p.nodes.push node⟩
  for child in children do
    append handle child
  return handle

/-- Takes a node off its parent. What hangs below it stays as it is. -/
def detach (n : Handle) : Task Program Unit := do
  let node ← Task.ofExcept ((← get).node n)
  match node.parent with
  | none => throw (.notAttached n)
  | some parent =>
    let above ← Task.ofExcept ((← get).node parent)
    unless above.children.contains n do throw .notAmongChildren
    modify fun p => p.update parent fun node => { node with children := node.children.erase n }
    modify fun p => p.update n fun node => { node with parent := none }

/-- Adds a node above nodes that have no parent yet. -/
def add (p : Program) (node : Node) (children : List Handle) : Program × Handle :=
  let handle := p.size
  let linked := children.foldl
    (fun (q : Program) child => q.update child fun c => { c with parent := some handle }) p
  (⟨linked.nodes.push { node with children }⟩, handle)

end Program

end SuperForward
