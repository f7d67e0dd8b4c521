/-
  Removing forwards from a program.

  A first walk collects every statement that is a forward, by the name of its method; a second
  walk drops the names to which another function is assigned as well; what remains is taken out
  of the program. Nothing is taken out before both walks have ended.
-/
import SuperForward.Forward.Matcher
import SuperForward.Forward.Removal

namespace SuperForward.Removal

/-! ## Candidates -/

/-- The function is the value of a statement that is nothing but an assignment. -/
def isFunctionAssignment (p : Program) (n : Handle) (parent : Option Handle) :
    Except Fault Bool := do
  let some parent := parent | return false
  if !(← p.isKind .function n) then return false
  if !(← p.isKind .assign parent) then return false
  match ← p.parent parent with
  | some statement => p.isKind .exprResult statement
  | none => return false

/-- The only call of a function whose body is one statement that is a call or returns one. -/
def onlyCall? (p : Program) (fn : Handle) : Except Fault (Option Handle) := do
  let some body ← p.lastChild fn | return none
  let [statement] := (← p.node body).children | return none
  let node ← p.node statement
  unless node.kind == .exprResult || node.kind == .returnStmt do return none
  let [call] := node.children | return none
  return if ← p.isKind .call call then some call else none

/-- The name of a function that is a forward and is not protected. -/
def candidate? (s : Removal) (n : Handle) (parent : Option Handle) :
    Except Fault (Option QualifiedName) := do
  if !(← isFunctionAssignment s.program n parent) then return none
  if ← isExcluded s.program s.exclusions (← Program.present parent) then return none
  let some call ← onlyCall? s.program n | return none
  let some name ← s.program.functionName n | return none
  return if ← Forward.isForward s.program s.registry n call name then some name else none

/-- Takes a forward down as a candidate. -/
def collect (n : Handle) (parent : Option Handle) : Task Removal Unit := do
  if let some name ← Task.ofExcept (candidate? (← get) n parent) then
    note .debug ("Candidate super forward: " ++ toString name)
    modify fun s => { s with candidates := s.candidates.insert name n }

/-- The name of an assigned function that stands in the way of a candidate. -/
def rival? (s : Removal) (n : Handle) (parent : Option Handle) :
    Except Fault (Option QualifiedName) := do
  if !(← isFunctionAssignment s.program n parent) then return none
  let some name ← s.program.functionName n | return none
  return if (s.candidates.get? name).any (· != n) then some name else none

/-- Drops the candidate whose name is assigned to this other function. -/
def dropRival (n : Handle) (parent : Option Handle) : Task Removal Unit := do
  if let some name ← Task.ofExcept (rival? (← get) n parent) then
    note .debug ("Keeping " ++ toString name ++ ": declared more than once")
    modify fun s => { s with candidates := s.candidates.erase name }

/-! ## Taking out -/

/-- What is known of the method of a statement. -/
def describe (p : Program) (name : QualifiedName) (statement : Handle) :
    Except Fault Removed := do
  let node ← p.node statement
  let doc := (← p.node (← Program.present node.children.head?)).doc
  let start := match doc with
    | some doc => min node.start doc.start
    | none => node.start
  return ⟨toString name, ← p.scriptPath statement, node.line, start, node.stop⟩

/-- The statement of a candidate, which has to be in the program. -/
def statementOf (p : Program) (name : QualifiedName) (fn : Handle) : Except Fault Handle := do
  let some statement ← p.grandparent fn | throw (.statementGone (toString name))
  unless (← p.isKind .exprResult statement) && (← p.isAttached statement) do
    throw (.statementGone (toString name))
  return statement

/-- Takes the statement of a candidate out of the program. -/
def takeOut (name : QualifiedName) (fn : Handle) : Task Removal Removed := do
  let statement ← ask (statementOf · name fn)
  let removed ← ask (describe · name statement)
  let scope ← ask fun p => do Program.present (← p.parent statement)
  edit (Program.detach statement)
  noteDeleted statement
  noteChange scope
  note .info ("Removed super forward " ++ toString name ++ " ("
    ++ removed.path.getD "None" ++ ":" ++ toString removed.line ++ ")")
  return removed

/-- Removes the forwards of a subtree. -/
def process (root : Handle) : Task Removal (List Removed) := do
  modify fun s => { s with candidates := .empty }
  Program.traverse (·.program) collect root
  Program.traverse (·.program) dropRival root
  let removed ← (← get).candidates.entries.mapM fun (name, fn) => takeOut name fn
  modify fun s => { s with candidates := .empty }
  return removed

end SuperForward.Removal
