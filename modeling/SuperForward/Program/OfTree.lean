/-
  From syntax trees to nodes.

  The nodes of a phrase are made after those of its parts, from left to right; a function makes
  its parameters and its body first, then its name and its parameter list. Marks, words and
  property names make no nodes, and parentheses leave the node of what they hold. A statement
  gets the last documentation comment that stands directly before it; if it is nothing but an
  assignment, the assignment gets it.
-/
import SuperForward.Program.Basic
import SuperForward.Script.Tree

namespace SuperForward

open SuperForward.Script

namespace Script

/-- The word for a rule, which names the nodes that have no sort of their own. -/
def Rule.word : Rule → String
  | .varStatement => "var_statement"
  | .functionDeclaration => "function_declaration"
  | .expressionStatement => "expression_statement"
  | .returnStatement => "return_statement"
  | .ifStatement => "if_statement"
  | .forStatement => "for_statement"
  | .forInStatement => "for_in_statement"
  | .whileStatement => "while_statement"
  | .doStatement => "do_statement"
  | .tryStatement => "try_statement"
  | .switchStatement => "switch_statement"
  | .throwStatement => "throw_statement"
  | .breakStatement => "break_statement"
  | .continueStatement => "continue_statement"
  | .block => "block"
  | .emptyStatement => "empty_statement"
  | .declarator => "declarator"
  | .functionExpression => "function_expression"
  | .functionBody => "function_body"
  | .params => "params"
  | .simpleParam => "simple_param"
  | .defaultParam => "default_param"
  | .restParam => "rest_param"
  | .forVar => "for_var"
  | .forInit => "for_init"
  | .catchClause => "catch_clause"
  | .finallyClause => "finally_clause"
  | .caseClause => "case_clause"
  | .defaultClause => "default_clause"
  | .name => "name"
  | .this => "this"
  | .number => "number"
  | .string | .template => "string"
  | .trueLiteral => "true"
  | .falseLiteral => "false"
  | .nullLiteral => "null"
  | .array => "array"
  | .object => "object"
  | .newExpression => "new_expression"
  | .parenthesized => "parenthesized"
  | .arguments => "arguments"
  | .spread => "spread"
  | .pair => "pair"
  | .shorthand => "shorthand"
  | .propertyName => "prop_name"
  | .unaryExpression => "unary_expression"
  | .getProp => "getprop"
  | .getElem => "getelem"
  | .call => "call"
  | .updateExpression => "postfix_expression"
  | .binaryExpression => "binary_expression"
  | .conditional => "hook"
  | .assign => "assign"
  | .sequence => "sequence"

/-- The rules that form statements. -/
def Rule.isStatement : Rule → Bool
  | .varStatement | .functionDeclaration | .expressionStatement | .returnStatement
  | .ifStatement | .forStatement | .forInStatement | .whileStatement | .doStatement
  | .tryStatement | .switchStatement | .throwStatement | .breakStatement
  | .continueStatement | .block | .emptyStatement => true
  | _ => false

/-- The text between the quotes of a literal. -/
def unquoted (s : String) : String := String.ofList (s.toList.drop 1).dropLast

namespace Tree

/-- The phrase makes a node of its own where a node is made of all its parts. -/
def makesNode : Tree → Bool
  | .leaf t => match t.kind with
    | .name | .number | .string | .template => true
    | .keyword _ | .mark _ => false
  | .node .propertyName _ => false
  | .node _ _ => true

/-- The text of the first token. -/
def headText (x : Tree) : String := (x.firstToken?.map (·.text)).getD ""

/-- The last documentation comment directly before a phrase; plain comments may stand between
the two. -/
def docBefore? (x : Tree) : Option DocComment :=
  x.firstToken?.bind fun t => t.comments.reverse.findSome? fun c => DocComment.read? c.text c.start

end Tree

end Script

/-- The documentation of a statement goes to its assignment, if it is one. -/
def Program.docTarget (p : Program) (n : Handle) : Handle :=
  match p.nodes[n]? with
  | some node =>
    match node.kind, node.children.head? with
    | .exprResult, some child =>
      if (p.nodes[child]?.map (·.kind)) = some .assign then child else n
    | _, _ => n
  | none => n

/-- Nodes are made one after the other. -/
abbrev Build := StateM Program

namespace Build

/-- Makes a node of a kind for a phrase. -/
def make (kind : NodeKind) (text : String) (e : Extent) (children : List Handle) : Build Handle :=
  modifyGet fun p =>
    let (q, n) := p.add (.fresh kind text e.start e.stop e.line) children
    (n, q)

/-- The node of a single token. -/
def ofToken (t : Token) : Build Handle :=
  let e := (Tree.leaf t).extent
  match t.kind with
  | .name => make .name t.text e []
  | .number => make .number t.text e []
  | .string | .template => make .string (unquoted t.text) e []
  | .keyword _ | .mark _ => make .other t.text e []

/-- Gives a statement its documentation. -/
def attachDoc (x : Tree) (n : Handle) : Build Unit :=
  match x.docBefore? with
  | some doc => modify fun p => p.setDoc (p.docTarget n) (some doc)
  | none => pure ()

/-- One part of a phrase, and how its nodes are made: its own node, or the nodes of the phrases
inside it without one of its own. -/
structure Piece where
  tree : Tree
  own : Build Handle
  inner : Build (List Handle)

/-- Makes the nodes of those parts that have one, from left to right. -/
def ownOf : List Piece → Build (List Handle)
  | [] => pure []
  | x :: xs =>
    if x.tree.makesNode then do
      let n ← x.own
      let ns ← ownOf xs
      return n :: ns
    else ownOf xs

/-- The name of a function, which is the only name among its own tokens. -/
def functionName? (parts : List Piece) : Option Token :=
  parts.findSome? fun x => match x.tree with
    | .leaf t => if t.kind = .name then some t else none
    | .node _ _ => none

/-- Makes the nodes of the parameters and of the body of a function. -/
def functionParts : List Piece → Build (List Handle × List Handle)
  | [] => pure ([], [])
  | x :: xs =>
    match x.tree with
    | .leaf _ => functionParts xs
    | .node .params _ => do
      let ns ← x.inner
      let (_, body) ← functionParts xs
      return (ns, body)
    | .node _ _ => do
      let n ← x.own
      let (params, _) ← functionParts xs
      return (params, [n])

/-- Makes the nodes of a function `x`: the nodes of its parameters and of its body, and then
those above them. -/
def function (x : Tree) (parts : List Piece) : Build Handle := do
  let (params, body) ← functionParts parts
  let e := x.extent
  let here : Extent := ⟨e.start, e.start, e.line⟩
  let name := functionName? parts
  let nameNode ← match name with
    | some t => make .name t.text (Tree.leaf t).extent []
    | none => make .name "" here []
  let paramList ← make .paramList "" here params
  make .function ((name.map (·.text)).getD "") e (nameNode :: paramList :: body)

/-- Makes the nodes of a phrase `x` that a rule has formed of parts; the result is the handle
of the topmost. -/
def ofRule (x : Tree) (rule : Rule) (parts : List Piece) : Build Handle :=
  match rule, parts with
  | .parenthesized, parts => do
    match ← ownOf parts with
    | [n] => return n
    | ns => make .other rule.word x.extent ns
  | .expressionStatement, parts => do make .exprResult "" x.extent (← ownOf parts)
  | .returnStatement, parts => do make .returnStmt "" x.extent (← ownOf parts)
  | .block, parts | .functionBody, parts => do make .block "" x.extent (← ownOf parts)
  | .varStatement, parts => do make .var x.headText x.extent (← ownOf parts)
  | .declarator, _ :: initializer => do make .name x.headText x.extent (← ownOf initializer)
  | .functionDeclaration, parts | .functionExpression, parts => function x parts
  | .name, _ | .simpleParam, _ => make .name x.headText x.extent []
  | .this, _ => make .this "this" x.extent []
  | .number, _ => make .number x.headText x.extent []
  | .string, _ | .template, _ => make .string (unquoted x.headText) x.extent []
  | .getProp, [target, dot, property] => do
    make .getProp property.tree.headText x.extent (← ownOf [target, dot])
  | .getElem, parts => do make .getElem "" x.extent (← ownOf parts)
  | .call, [callee, arguments] => do
    let callee ← callee.own
    make .call "" x.extent (callee :: (← arguments.inner))
  | .assign, [target, operator, value] => do
    let target ← target.own
    let value ← value.own
    if operator.tree.headText == "=" then make .assign "" x.extent [target, value]
    else make .other operator.tree.headText x.extent [target, value]
  | rule, parts => do make .other rule.word x.extent (← ownOf parts)

/-- Makes the nodes of a phrase `x` that a rule has formed of parts, with its documentation. -/
def documented (x : Tree) (rule : Rule) (parts : List Piece) : Build Handle := do
  let n ← ofRule x rule parts
  if rule.isStatement then attachDoc x n
  return n

mutual

/-- Makes the nodes of a phrase; the result is the handle of the topmost. -/
def ofTree : Tree → Build Handle
  | .leaf t => ofToken t
  | .node rule parts => documented (.node rule parts) rule (piecesOf parts)

/-- Makes the nodes of the phrases inside a phrase. -/
def inside : Tree → Build (List Handle)
  | .leaf _ => pure []
  | .node _ parts => ownOf (piecesOf parts)

/-- How the nodes of several phrases are made. -/
def piecesOf : List Tree → List Piece
  | [] => []
  | x :: xs => ⟨x, ofTree x, inside x⟩ :: piecesOf xs

end

/-- Makes the nodes of several phrases. -/
def ofTrees (xs : List Tree) : Build (List Handle) := ownOf (piecesOf xs)

end Build

namespace Program

/-- Appends a script: its statements, and its path. `length` is that of its text. -/
def addScript (p : Program) (path : String) (length : Nat) (statements : List Tree) :
    Program × Handle :=
  let (ns, p) := (Build.ofTrees statements).run p
  let (p, script) := p.add (.fresh .script path 0 length 1) ns
  let p := p.update script fun node => { node with parent := some root }
  (p.update root fun node => { node with children := node.children ++ [script] }, script)

end Program

end SuperForward
