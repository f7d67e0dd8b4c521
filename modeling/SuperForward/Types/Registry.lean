/-
  The registry: which classes, methods and functions a program declares.

  A class is declared once, and it may have a superclass. A method or a function that is
  declared again has the later type; one that is declared without a type counts as not
  declared when it is looked up.
-/
import SuperForward.Data.OrderedMap
import SuperForward.Program.Fault

namespace SuperForward

/-- Declared classes with their superclasses, methods by class and name, functions by name. -/
structure Registry where
  classes : OrderedMap String (Option String)
  methods : OrderedMap (String × String) (Option JsType)
  functions : OrderedMap String (Option JsType)
  deriving Repr, Inhabited

namespace Registry

/-- The registry that declares nothing. -/
def empty : Registry := ⟨.empty, .empty, .empty⟩

/-! ## Classes -/

/-- The class has been declared. -/
def isClass (r : Registry) (name : String) : Bool := r.classes.contains name

/-- Declares a class; one that is declared already stays as it is. -/
def declareClass (r : Registry) (name : String) : Registry :=
  if r.isClass name then r else { r with classes := r.classes.insert name none }

/-- The superclass of a class. -/
def superclass? (r : Registry) (name : String) : Option String := (r.classes.get? name).join

/-- Says what the superclass of a class is; both have to be declared. -/
def setSuperclass (r : Registry) (name parent : String) : Except Fault Registry :=
  if !r.isClass parent then .error (.undeclaredClass parent)
  else if !r.isClass name then .error (.undeclaredClass name)
  else .ok { r with classes := r.classes.insert name (some parent) }

/-- The type of the objects of a class. -/
def instanceOf? (r : Registry) (name : String) : Option JsType :=
  if r.isClass name then some (.instance name) else none

/-! ## Methods and functions -/

/-- Declares a method. -/
def declareMethod (r : Registry) (className method : String) (type : Option JsType) : Registry :=
  { r with methods := r.methods.insert (className, method) type }

/-- The type of a method that the class declares itself. -/
def ownMethod? (r : Registry) (className method : String) : Option JsType :=
  (r.methods.get? (className, method)).join

/-- The type of a method on a class or the nearest class above it, within some steps. -/
def findMethodWithin (r : Registry) (method : String) : (steps : Nat) → String → Option JsType
  | 0, _ => none
  | steps + 1, className =>
    match r.ownMethod? className method with
    | some type => some type
    | none => (r.superclass? className).bind (r.findMethodWithin method steps)

/-- The type of a method on a class or the nearest class above it. Only declared classes have
a superclass, so more steps than there are classes would pass a class twice. -/
def findMethod (r : Registry) (className method : String) : Option JsType :=
  r.findMethodWithin method (r.classes.entries.length + 1) className

/-- Declares a function. -/
def declareFunction (r : Registry) (name : String) (type : Option JsType) : Registry :=
  { r with functions := r.functions.insert name type }

/-- The type of a function, or else of the constructor of that name. -/
def function? (r : Registry) (name : String) : Option JsType :=
  (r.functions.get? name).join.or (if r.isClass name then some (.constructor name) else none)

end Registry

end SuperForward
