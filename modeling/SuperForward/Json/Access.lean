/-
  Using a value as if it were of a certain sort, and what goes wrong if it is not.
-/
import SuperForward.Json.Value
import SuperForward.Text.Quoted

namespace SuperForward.Json

/-- A value that cannot be used as it was meant to be. -/
inductive Misfit where
  /-- The value does not have the operation. -/
  | noOperation (sort operation : String)
  /-- The object has no member of the name. -/
  | noMember (name : String)
  /-- The value has no items to go through. -/
  | noItems (sort : String)
  /-- The value has no members. -/
  | noMembers (sort : String)
  /-- The value does not stand for a path. -/
  | noPath (sort : String)
  deriving DecidableEq, Repr

namespace Misfit

/-- The wording of each misfit. -/
def message : Misfit → String
  | .noOperation sort operation =>
    Text.quoted sort ++ " object has no attribute " ++ Text.quoted operation
  | .noMember name => Text.quoted name
  | .noItems sort => Text.quoted sort ++ " object is not iterable"
  | .noMembers sort =>
    if sort == "list" then "list indices must be integers or slices, not str"
    else if sort == "str" then "string indices must be integers, not 'str'"
    else Text.quoted sort ++ " object is not subscriptable"
  | .noPath sort => "expected str, bytes or os.PathLike object, not " ++ sort

end Misfit

namespace Value

/-- The members of an object; any other value lacks the operation that asks for them. -/
def members (operation : String) : Value → Except Misfit (List (String × Value))
  | .object members => .ok members
  | v => .error (.noOperation v.sort operation)

/-- The items of an array; any other value lacks the operation that asks for them. -/
def itemsFor (operation : String) : Value → Except Misfit (List Value)
  | .array items => .ok items
  | v => .error (.noOperation v.sort operation)

/-- What there is to go through in a value: items, names of members, or characters. -/
def items : Value → Except Misfit (List Value)
  | .array items => .ok items
  | .object members => .ok (members.map fun m => .string m.1)
  | .string s => .ok (s.toList.map fun c => .string (String.singleton c))
  | v => .error (.noItems v.sort)

/-- The member of a name, which must be there. -/
def member (name : String) : Value → Except Misfit Value
  | .object members =>
    match OrderedMap.lookup name members with
    | some v => .ok v
    | none => .error (.noMember name)
  | v => .error (.noMembers v.sort)

/-- The text of a value that stands for a path. -/
def pathText : Value → Except Misfit String
  | .string s => .ok s
  | v => .error (.noPath v.sort)

/-- The value is this text. -/
def isText (s : String) : Value → Bool
  | .string t => s == t
  | _ => false

end Value

end SuperForward.Json
