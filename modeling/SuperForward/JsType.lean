/-
  Types of values, as far as removal of forwards compares them: whether a callee is a function,
  what it returns, and which class an object belongs to.
-/
import SuperForward.Text.Quoted

namespace SuperForward

/-- A type. Classes are named: a class has one constructor and one type of instances. -/
inductive JsType where
  /-- No value. -/
  | void
  /-- Any value. -/
  | unknown
  /-- A declared type that is not a class of the program. -/
  | named (name : String)
  /-- The result of a function that declares none. -/
  | undeclared
  /-- A function; `constructs` if it makes objects. -/
  | function (name : String) (returns : JsType) (constructs : Bool)
  /-- The constructor of a declared class. -/
  | constructor (className : String)
  /-- The objects of a class. -/
  | instance (className : String)
  /-- The objects of a class that is not known. -/
  | orphan
  deriving DecidableEq, Repr, Inhabited

namespace JsType

/-- A type that can be called. -/
def isFunction : JsType → Bool
  | .function .. | .constructor _ => true
  | _ => false

/-- What a call gives back, if the type can be called. A constructor itself gives back
nothing. -/
def returns? : JsType → Option JsType
  | .function _ returns _ => some returns
  | .constructor _ => some .void
  | _ => none

/-- A result that is declared, and neither nothing nor anything. -/
def isDefinite : JsType → Bool
  | .void | .unknown | .undeclared => false
  | _ => true

/-- The type of the objects that a function makes. -/
def instanceType? : JsType → Option JsType
  | .function name _ true => some (.instance name)
  | .constructor name => some (.instance name)
  | _ => none

/-- The same type: classes are the same if their names are, and a function that is not a
class is a type of its own wherever it is written down. -/
def same : JsType → JsType → Bool
  | .void, .void | .unknown, .unknown => true
  | .constructor a, .constructor b | .instance a, .instance b => a == b
  | _, _ => false

/-- Equal types: the same ones, and named types of one name. -/
def equal : JsType → JsType → Bool
  | .named a, .named b => a == b
  | a, b => a.same b

/-- The word for the sort of a type. -/
def sort : JsType → String
  | .void => "VoidType"
  | .unknown => "UnknownType"
  | .undeclared => "NoneType"
  | .named _ => "NamedType"
  | .function .. | .constructor _ => "FunctionType"
  | .instance _ | .orphan => "InstanceType"

/-- How a type is written in reports. -/
def render : JsType → String
  | .named name => "NamedType(" ++ Text.quoted name ++ ")"
  | .function name returns constructs =>
    let kind := if constructs then "constructor " else "function "
    "FunctionType(" ++ kind ++ Text.quoted name ++ " -> " ++ returns.render ++ ")"
  | .constructor name => "FunctionType(constructor " ++ Text.quoted name ++ " -> VoidType())"
  | .instance name => "InstanceType(" ++ Text.quoted name ++ ")"
  | .orphan => "InstanceType('?')"
  | .undeclared => "None"
  | t => t.sort ++ "()"

end JsType

end SuperForward
