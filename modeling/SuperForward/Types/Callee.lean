/-
  What a called name stands for.

  A last segment `call` or `apply` is looked through. A name with the superclass marker is a
  method of the superclass, a name with the prototype marker is a method of the class, and any
  other name is a function, unless a marker stands somewhere else in it.
-/
import SuperForward.QualifiedName
import SuperForward.Types.Registry

namespace SuperForward

namespace QualifiedName

/-- The methods of functions that call them. -/
def isCaller (segment : String) : Bool := segment == "call" || segment == "apply"

/-- The function that is called: the name without one last segment that only calls it. -/
def calledName (q : QualifiedName) : QualifiedName :=
  if isCaller q.last then q.parent?.getD q else q

/-- No marker stands in the name. -/
def isPlain (q : QualifiedName) : Bool :=
  q.accesses.all fun access => access == .root || access == .member

end QualifiedName

namespace Registry

/-- The type of a function or a method by the name that is called, without its caller. -/
def typeOfCalled? (r : Registry) (name : QualifiedName) : Option JsType :=
  match name.splitOn .superclass with
  | some (className, member) => do
    let method ← member.single?
    let parent ← r.superclass? (toString className)
    r.findMethod parent method
  | none =>
    match name.splitOn .prototype with
    | some (className, member) => do r.findMethod (toString className) (← member.single?)
    | none => if name.isPlain then r.function? (toString name) else none

/-- The type of the function that a name stands for in a call. -/
def typeOfCallee? (r : Registry) (name : QualifiedName) : Option JsType :=
  r.typeOfCalled? name.calledName

end Registry

end SuperForward
