/-
  Forwards: functions that do nothing but call the same method of the superclass with the same
  receiver and the same arguments.
-/
import SuperForward.Program.Names
import SuperForward.Types.Registry

namespace SuperForward.Forward

/-- The method of functions that a forward calls. -/
def callSegment : String := "call"

/-- Each argument is a plain name, and the parameter at its position is the same name. -/
def parametersForwarded (p : Program) : (params args : List Handle) → Except Fault Bool
  | param :: params, arg :: args => do
    if !(← p.isKind .name arg) then return false
    if !(← p.sameName param arg) then return false
    parametersForwarded p params args
  | _, _ => .ok true

/-- The call passes `this` and then exactly the parameters of the function. -/
def argumentsMatch (p : Program) (fn call : Handle) : Except Fault Bool := do
  let params ← p.children (← Program.present (← p.secondChild fn))
  match ← p.children call with
  | _ :: receiver :: args =>
    if params.length != args.length then return false
    if !(← p.isKind .this receiver) then return false
    parametersForwarded p params args
  | _ => return false

/-- The callee is known to be a function, and if it gives back something definite, the call is
what a statement returns. -/
def resultMatches (p : Program) (call : Handle) : Except Fault Bool := do
  let callee ← p.node (← Program.present (← p.firstChild call))
  match callee.type.bind (·.returns?) with
  | none => return false
  | some returns =>
    if returns.isDefinite then p.isKind .returnStmt (← Program.present (← p.parent call))
    else return true

/-- The method that is called, as a name below a class, is the method with its caller. -/
def callsMethod (method called : QualifiedName) : Bool :=
  called.names == method.names ++ [callSegment]

/-- The name that is called is that of the enclosing method on the superclass: by the
superclass marker of its own class, or by the prototype of the declared superclass. -/
def isSuperclassMethod (r : Registry) (enclosing called : QualifiedName) : Bool :=
  match enclosing.splitOn .prototype with
  | none => false
  | some (ownClass, method) =>
    let bySuperclass := (called.splitOn .superclass).any fun (className, rest) =>
      className == ownClass && callsMethod method rest
    let byPrototype := (called.splitOn .prototype).any fun (className, rest) =>
      callsMethod method rest && r.isClass (toString className)
        && r.superclass? (toString ownClass) == some (toString className)
    bySuperclass || byPrototype

/-- The call names the enclosing method on the superclass. -/
def nameMatches (p : Program) (r : Registry) (enclosing : QualifiedName) (call : Handle) :
    Except Fault Bool := do
  match ← p.qualifiedNameOf (← p.firstChild call) with
  | some called => return isSuperclassMethod r enclosing called
  | none => return false

/-- The call is an exact forward of the function to the method of that name on the
superclass. -/
def isForward (p : Program) (r : Registry) (fn call : Handle) (name : QualifiedName) :
    Except Fault Bool := do
  if !(← argumentsMatch p fn call) then return false
  if !(← resultMatches p call) then return false
  nameMatches p r name call

end SuperForward.Forward
