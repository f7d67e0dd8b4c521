/-
  What a phrase makes, without handles.

  A sketch says of a node and of all nodes below it what sort they are of, what text,
  documentation and place they have, and in which order they stand. `Sketch.ofTree` is the
  sketch of the nodes that are made for a phrase. A node of a program shows a sketch if it and
  the nodes below it are as the sketch says; types and parents do not matter.
-/
import SuperForward.Program.OfTree
import SuperForward.Proofs.Program.Forest

namespace SuperForward

open SuperForward.Script

/-- A node and the nodes below it, as far as they do not depend on handles and types. -/
inductive Sketch where
  | mk (kind : NodeKind) (text : String) (doc : Option DocComment) (extent : Extent)
    (children : List Sketch)
  deriving Inhabited

namespace Sketch

/-- The sort of the topmost node. -/
def kind : Sketch → NodeKind
  | .mk kind .. => kind

/-- The text of the topmost node. -/
def text : Sketch → String
  | .mk _ text .. => text

/-- The documentation of the topmost node. -/
def doc : Sketch → Option DocComment
  | .mk _ _ doc .. => doc

/-- The place of the topmost node. -/
def extent : Sketch → Extent
  | .mk _ _ _ extent _ => extent

/-- What hangs below the topmost node. -/
def children : Sketch → List Sketch
  | .mk _ _ _ _ children => children

/-- A node about which nothing is said. -/
def fresh (kind : NodeKind) (text : String) (extent : Extent) (children : List Sketch) : Sketch :=
  .mk kind text none extent children

/-- The topmost node gets its documentation. -/
def setDoc (d : DocComment) : Sketch → Sketch
  | .mk kind text _ extent children => .mk kind text (some d) extent children

/-- The documentation of a statement goes to its assignment, if it is one. -/
def document (d : DocComment) : Sketch → Sketch
  | .mk .exprResult text doc extent (c :: cs) =>
    if c.kind = .assign then .mk .exprResult text doc extent (c.setDoc d :: cs)
    else .mk .exprResult text (some d) extent (c :: cs)
  | s => s.setDoc d

/-- What holds of a sketch if it holds of what hangs below holds of every sketch. -/
theorem induction_on {motive : Sketch → Prop} (s : Sketch)
    (step : ∀ s : Sketch, (∀ c ∈ s.children, motive c) → motive s) : motive s := by
  refine @Sketch.rec motive (fun ss => ∀ c ∈ ss, motive c) ?_ ?_ ?_ s
  · exact fun kind text doc extent children ih => step _ ih
  · exact fun c h => absurd h List.not_mem_nil
  · intro s ss ih ihs c h
    rcases List.mem_cons.mp h with rfl | h
    · exact ih
    · exact ihs c h

/-! ## The sketch of a phrase -/

/-- The sketch of a single token. -/
def ofToken (t : Token) : Sketch :=
  let e := (Tree.leaf t).extent
  match t.kind with
  | .name => fresh .name t.text e []
  | .number => fresh .number t.text e []
  | .string | .template => fresh .string (unquoted t.text) e []
  | .keyword _ | .mark _ => fresh .other t.text e []

/-- One part of a phrase, with the sketch of its own node and of those that the phrases inside
it make. -/
structure Piece where
  tree : Tree
  own : Sketch
  inner : List Sketch

/-- The sketches of those parts that have a node. -/
def ownOf : List Piece → List Sketch
  | [] => []
  | x :: xs => if x.tree.makesNode then x.own :: ownOf xs else ownOf xs

/-- The name of a function, which is the only name among its own tokens. -/
def functionName? (parts : List Piece) : Option Token :=
  parts.findSome? fun x => match x.tree with
    | .leaf t => if t.kind = .name then some t else none
    | .node _ _ => none

/-- The sketches of the parameters and of the body of a function. -/
def functionParts : List Piece → List Sketch × List Sketch
  | [] => ([], [])
  | x :: xs =>
    match x.tree with
    | .leaf _ => functionParts xs
    | .node .params _ => (x.inner, (functionParts xs).2)
    | .node _ _ => ((functionParts xs).1, [x.own])

/-- The sketch of the name that a function carries itself. -/
def functionNameNode (x : Tree) (name : Option Token) : Sketch :=
  match name with
  | some t => fresh .name t.text (Tree.leaf t).extent []
  | none => fresh .name "" ⟨x.extent.start, x.extent.start, x.extent.line⟩ []

/-- The sketch of a function `x`. -/
def function (x : Tree) (parts : List Piece) : Sketch :=
  let (params, body) := functionParts parts
  let e := x.extent
  let here : Extent := ⟨e.start, e.start, e.line⟩
  let name := functionName? parts
  fresh .function ((name.map (·.text)).getD "") e
    (functionNameNode x name :: fresh .paramList "" here params :: body)

/-- What parentheses leave of what was made inside them: the only node. -/
def parenthesized (text : String) (e : Extent) : List Sketch → Sketch
  | [s] => s
  | ss => fresh .other text e ss

/-- The sketch of a phrase `x` that a rule has formed of parts. -/
def ofRule (x : Tree) (rule : Rule) (parts : List Piece) : Sketch :=
  match rule, parts with
  | .parenthesized, parts => parenthesized rule.word x.extent (ownOf parts)
  | .expressionStatement, parts => fresh .exprResult "" x.extent (ownOf parts)
  | .returnStatement, parts => fresh .returnStmt "" x.extent (ownOf parts)
  | .block, parts | .functionBody, parts => fresh .block "" x.extent (ownOf parts)
  | .varStatement, parts => fresh .var x.headText x.extent (ownOf parts)
  | .declarator, _ :: initializer => fresh .name x.headText x.extent (ownOf initializer)
  | .functionDeclaration, parts | .functionExpression, parts => function x parts
  | .name, _ | .simpleParam, _ => fresh .name x.headText x.extent []
  | .this, _ => fresh .this "this" x.extent []
  | .number, _ => fresh .number x.headText x.extent []
  | .string, _ | .template, _ => fresh .string (unquoted x.headText) x.extent []
  | .getProp, [target, dot, property] =>
    fresh .getProp property.tree.headText x.extent (ownOf [target, dot])
  | .getElem, parts => fresh .getElem "" x.extent (ownOf parts)
  | .call, [callee, arguments] => fresh .call "" x.extent (callee.own :: arguments.inner)
  | .assign, [target, operator, value] =>
    if operator.tree.headText == "=" then fresh .assign "" x.extent [target.own, value.own]
    else fresh .other operator.tree.headText x.extent [target.own, value.own]
  | rule, parts => fresh .other rule.word x.extent (ownOf parts)

/-- The sketch of a phrase `x` that a rule has formed of parts, with its documentation. -/
def documented (x : Tree) (rule : Rule) (parts : List Piece) : Sketch :=
  if rule.isStatement then
    match x.docBefore? with
    | some d => (ofRule x rule parts).document d
    | none => ofRule x rule parts
  else ofRule x rule parts

mutual

/-- The sketch of a phrase. -/
def ofTree : Tree → Sketch
  | .leaf t => ofToken t
  | .node rule parts => documented (.node rule parts) rule (piecesOf parts)

/-- The sketches of the phrases inside a phrase. -/
def inside : Tree → List Sketch
  | .leaf _ => []
  | .node _ parts => ownOf (piecesOf parts)

/-- The parts of a phrase with their sketches. -/
def piecesOf : List Tree → List Piece
  | [] => []
  | x :: xs => ⟨x, ofTree x, inside x⟩ :: piecesOf xs

end

/-- The sketches of several phrases. -/
def ofTrees (xs : List Tree) : List Sketch := ownOf (piecesOf xs)

theorem piecesOf_eq_map (xs : List Tree) :
    piecesOf xs = xs.map fun x => ⟨x, ofTree x, inside x⟩ := by
  induction xs with
  | nil => rfl
  | cons x xs ih => rw [piecesOf, ih, List.map_cons]

theorem ownOf_piecesOf (xs : List Tree) :
    ownOf (piecesOf xs) = (xs.filter Tree.makesNode).map ofTree := by
  induction xs with
  | nil => rfl
  | cons x xs ih =>
    rw [piecesOf, ownOf, List.filter_cons]
    split
    · rw [List.map_cons, ih]
    · exact ih

theorem function_eq (x : Tree) (parts : List Piece) : function x parts
    = fresh .function (((functionName? parts).map (·.text)).getD "") x.extent
        (functionNameNode x (functionName? parts) ::
          fresh .paramList "" ⟨x.extent.start, x.extent.start, x.extent.line⟩
            (functionParts parts).1 :: (functionParts parts).2) := rfl

theorem functionParts_leaf {y : Piece} {ys : List Piece} {t : Token} (h : y.tree = .leaf t) :
    functionParts (y :: ys) = functionParts ys := by
  rw [functionParts, h]

theorem functionParts_params {y : Piece} {ys : List Piece} {parts : List Tree}
    (h : y.tree = .node .params parts) :
    functionParts (y :: ys) = (y.inner, (functionParts ys).2) := by
  rw [functionParts, h]

theorem functionParts_node {y : Piece} {ys : List Piece} {r : Rule} {parts : List Tree}
    (h : y.tree = .node r parts) (hr : r ≠ .params) :
    functionParts (y :: ys) = ((functionParts ys).1, [y.own]) := by
  rw [functionParts, h]
  split
  · next h' => cases h'
  · next h' => cases h'; exact absurd rfl hr
  · rfl

end Sketch

namespace Program

mutual

/-- The node and those below it are as the sketch says. -/
def Shows (p : Program) (n : Handle) : Sketch → Prop
  | .mk kind text doc extent children => ∃ node, p.nodes[n]? = some node ∧
      node.kind = kind ∧ node.text = text ∧ node.doc = doc ∧
      (⟨node.start, node.stop, node.line⟩ : Extent) = extent ∧ p.ShowAll node.children children

/-- The nodes are, one by one, as the sketches say. -/
def ShowAll (p : Program) (ns : List Handle) : List Sketch → Prop
  | [] => ns = []
  | s :: ss => ∃ m ms, ns = m :: ms ∧ p.Shows m s ∧ p.ShowAll ms ss

end

theorem showAll_iff {p : Program} {ns : List Handle} {ss : List Sketch} :
    p.ShowAll ns ss ↔ List.Forall₂ p.Shows ns ss := by
  induction ss generalizing ns with
  | nil => rw [ShowAll, List.forall₂_nil_right_iff]
  | cons s ss ih =>
    rw [ShowAll, List.forall₂_cons_right_iff]
    constructor
    · rintro ⟨m, ms, rfl, hm, hms⟩
      exact ⟨m, ms, hm, ih.mp hms, rfl⟩
    · rintro ⟨m, ms, hm, hms, rfl⟩
      exact ⟨m, ms, rfl, hm, ih.mpr hms⟩

theorem shows_iff {p : Program} {n : Handle} {s : Sketch} :
    p.Shows n s ↔ ∃ node, p.nodes[n]? = some node ∧ node.kind = s.kind ∧ node.text = s.text ∧
      node.doc = s.doc ∧ (⟨node.start, node.stop, node.line⟩ : Extent) = s.extent ∧
      List.Forall₂ p.Shows node.children s.children := by
  cases s with
  | mk kind text doc extent children =>
    rw [Shows]
    simp only [showAll_iff, Sketch.kind, Sketch.text, Sketch.doc, Sketch.extent, Sketch.children]

end Program

end SuperForward
