/-
  Typing: finding out from a program which classes, methods and functions it declares, and
  of what type the callees of its calls are.

  Classes and interfaces are functions that are documented as such. Superclass links come from
  the documentation and from calls of `goog.inherits`, which win; a link that is not between
  declared classes, or that would close a circle, is left out. Methods that override without a
  declared result take over that of the method they override, base classes first.
-/
import SuperForward.Data.StableSort
import SuperForward.Log
import SuperForward.Program.Names
import SuperForward.Types.Ancestry
import SuperForward.Types.Callee

namespace SuperForward

/-- A function with its name and its documentation. -/
structure Declaration where
  name : QualifiedName
  fn : Handle
  doc : Option DocComment

/-- A method that takes its result from the method it overrides. -/
structure Override where
  className : String
  method : String
  fn : Handle

/-- What typing works on: the program, what has been declared, and what has been linked. -/
structure Typing where
  program : Program
  registry : Registry
  ancestry : Ancestry
  interfaces : List String
  log : List Log.Entry
  deriving Inhabited

namespace Typing

/-- The function that links a class to its superclass when it is called. -/
def inheritsFunction : String := "goog.inherits"

/-- The state before typing, with nothing linked yet. -/
def start (program : Program) (registry : Registry) : Typing :=
  ⟨program, registry, .empty, [], []⟩

/-- Notes something down. -/
def note (level : Log.Level) (text : String) : Task Typing Unit :=
  modify fun a => { a with log := a.log ++ [⟨level, text⟩] }

/-- Asks the program. -/
def ask {α : Type} (question : Program → Except Fault α) : Task Typing α := do
  Task.ofExcept (question (← get).program)

/-- Changes the registry. -/
def declare (f : Registry → Registry) : Task Typing Unit :=
  modify fun a => { a with registry := f a.registry }

/-! ## Classes -/

/-- The function with its name and its documentation, if it is one and has a name. -/
def declarationAt (p : Program) (n : Handle) : Except Fault (Option Declaration) := do
  if !(← p.isKind .function n) then return none
  let some name ← p.functionName n | return none
  return some ⟨name, n, ← p.docOfFunction n⟩

/-- The named functions of the program, in order. -/
def declarationsOf (p : Program) : Except Fault (List Declaration) := do
  return (← (← p.subtree Program.root).mapM (declarationAt p)).filterMap id

/-- Declares the class or the interface that a function is documented to be; the result is the
superclass that the documentation names. -/
def declareClass (d : Declaration) : Task Typing (Option (String × String)) := do
  let some doc := d.doc | return none
  unless doc.isConstructor || doc.isInterface do return none
  let name := toString d.name
  modify fun a => { a with
    registry := a.registry.declareClass name
    ancestry := a.ancestry.addClass name
    interfaces := if doc.isConstructor || a.interfaces.contains name then a.interfaces
      else a.interfaces ++ [name] }
  return (doc.superclass.bind DocComment.nonblank?).map fun parent => (name, parent)

/-- The class and the superclass that a call links, if it is a call of the linking function. -/
def inheritsAt (p : Program) (n : Handle) : Except Fault (Option (String × String)) := do
  let node ← p.node n
  match node.kind, node.children with
  | .call, [callee, child, parent] =>
    let some name ← p.qualifiedName callee | return none
    if toString name != inheritsFunction then return none
    let child ← p.qualifiedName child
    let parent ← p.qualifiedName parent
    return do return (toString (← child), toString (← parent))
  | _, _ => return none

/-- The links that calls of the linking function make, in order. -/
def inheritsOf (p : Program) : Except Fault (List (String × String)) := do
  return (← (← p.subtree Program.root).mapM (inheritsAt p)).filterMap id

/-- Links a class to a superclass, if that makes sense. -/
def link (child parent : String) : Task Typing Unit := do
  let a ← get
  if !a.registry.isClass child then
    note .debug ("Ignoring superclass of undeclared class " ++ child)
  else if !a.registry.isClass parent then
    note .debug ("Superclass " ++ parent ++ " of " ++ child ++ " is not a declared class")
  else if a.interfaces.contains child || a.interfaces.contains parent then
    note .debug ("Ignoring interface inheritance: " ++ child ++ " extends " ++ parent)
  else if ← (if child == parent then pure true
      else Task.ofExcept (a.ancestry.leadsTo parent child)) then
    note .warning ("Ignoring cyclic inheritance: " ++ child ++ " extends " ++ parent)
  else do
    modify fun a => { a with ancestry := a.ancestry.addLink child parent }
    let registry ← Task.ofExcept (a.registry.setSuperclass child parent)
    declare fun _ => registry

/-- Declares the classes, and links them: first what the documentation says, and where calls
say something else, that instead. -/
def declareClasses (declarations : List Declaration) : Task Typing Unit := do
  let documented ← declarations.mapM declareClass
  let called ← ask inheritsOf
  let links := (OrderedMap.ofList (documented.filterMap id)).insertAll called
  for (child, parent) in links.entries do
    link child parent

/-! ## Functions and methods -/

/-- The spellings of a type without values. -/
def isVoidName (s : String) : Bool := s == "void" || s == "undefined"

/-- The spellings of the type of all values. -/
def isUnknownName (s : String) : Bool := s == "?" || s == "*"

/-- The type that a documentation names. -/
def declaredType (r : Registry) (expression : String) : JsType :=
  let expression := Text.trim expression
  if isVoidName expression then .void
  else if isUnknownName expression then .unknown
  else
    let className := Text.trimStartOf (fun c => c == '!' || c == '?') expression
    (r.instanceOf? className).getD (.named expression)

/-- One of the nodes or of those below them returns a value, not counting functions; within
some steps. -/
def returnsValueWithin (p : Program) : (steps : Nat) → List Handle → Except Fault Bool
  | 0, _ | _, [] => .ok false
  | steps + 1, n :: rest => do
    let node ← p.node n
    if node.kind == .returnStmt && !node.children.isEmpty then return true
    let below := if node.kind == .function then [] else node.children
    returnsValueWithin p steps (below ++ rest)

/-- What a function gives back if nothing is declared: anything if it returns a value
somewhere, otherwise nothing. -/
def inferredResult (p : Program) (fn : Handle) : Except Fault JsType := do
  let some body ← p.lastChild fn | return .void
  return if ← returnsValueWithin p (p.size + 1) (← p.children body) then .unknown else .void

/-- What a function gives back: as declared, or else as inferred. -/
def result (d : Declaration) : Task Typing JsType := do
  match d.doc.bind (·.returnType) with
  | some expression => return declaredType (← get).registry expression
  | none => ask (inferredResult · d.fn)

/-- The documentation leaves the result to the method that is overridden. -/
def leavesResult (doc : Option DocComment) : Bool :=
  doc.any fun doc => doc.isOverride && doc.returnType.isNone

/-- Declares a function or a method; one that waits for the method it overrides is given
back. -/
def declareFunction (d : Declaration) : Task Typing (Option Override) := do
  let name := toString d.name
  if (← get).registry.isClass name then return none
  match d.name.splitOn .prototype with
  | none =>
    let type := JsType.function name (← result d) false
    declare (·.declareFunction name (some type))
    return none
  | some (owner, member) =>
    let className := toString owner
    let some method := member.single? | return none
    unless (← get).registry.isClass className do return none
    if leavesResult d.doc then return some ⟨className, method, d.fn⟩
    let type := JsType.function name (← result d) false
    declare (·.declareMethod className method (some type))
    return none

/-- The type of the method that is overridden. -/
def overridden? (r : Registry) (o : Override) : Option JsType :=
  (r.superclass? o.className).bind (r.findMethod · o.method)

/-- Declares a method with the result of the one it overrides. -/
def declareOverride (o : Override) : Task Typing Unit := do
  let returns ← match overridden? (← get).registry o with
    | some type =>
      match type.returns? with
      | some returns => pure returns
      | none => throw (.notCallable type)
    | none => ask (inferredResult · o.fn)
  let name := o.className ++ ".prototype." ++ o.method
  declare (·.declareMethod o.className o.method (some (.function name returns false)))

/-- Overrides of base classes before those of classes below them. -/
def baseFirst (a : Ancestry) (overrides : List Override) : List Override :=
  StableSort.sortBy (fun o₁ o₂ => decide (a.depth o₁.className ≤ a.depth o₂.className)) overrides

/-- Declares the functions and methods, those that override last. -/
def declareFunctions (declarations : List Declaration) : Task Typing Unit := do
  let overrides ← declarations.mapM declareFunction
  let sorted := baseFirst (← get).ancestry (overrides.filterMap id)
  for o in sorted do
    declareOverride o

/-! ## Calls -/

/-- Attaches its type to the callee of a call, if it is known. -/
def typeCall (n : Handle) : Task Typing Unit := do
  if ← ask (·.isKind .call n) then
    let callee ← ask fun p => do Program.present (← p.firstChild n)
    if let some name ← ask (·.qualifiedName callee) then
      if let some type := (← get).registry.typeOfCallee? name then
        modify fun a => { a with program := a.program.setType callee (some type) }

/-- Attaches types to the callees of all calls. -/
def typeCalls : Task Typing Unit := do
  for n in ← ask (·.subtree Program.root) do
    typeCall n

/-- Finds out what the whole program declares, and of what types its callees are. -/
def determine : Task Typing Unit := do
  let declarations ← ask declarationsOf
  declareClasses declarations
  declareFunctions declarations
  typeCalls

end Typing

end SuperForward
