/-
  Values of the data format in which manifests are kept.
-/
import SuperForward.Data.OrderedMap
import SuperForward.Decimal.Shortest

namespace SuperForward.Json

open SuperForward.Decimal (Double)

/-- A value. The members of an object have an order, and no name occurs twice. -/
inductive Value where
  | null
  | bool (b : Bool)
  | int (n : Int)
  | float (x : Double)
  | string (s : String)
  | array (items : List Value)
  | object (members : List (String × Value))
  deriving Repr, Inhabited

namespace Value

/-- The word for the sort of a value. -/
def sort : Value → String
  | .null => "NoneType"
  | .bool _ => "bool"
  | .int _ => "int"
  | .float _ => "float"
  | .string _ => "str"
  | .array _ => "list"
  | .object _ => "dict"

/-- The value counts as true: it is neither nothing, nor false, nor zero, nor empty. -/
def isTrue : Value → Bool
  | .null => false
  | .bool b => b
  | .int n => n != 0
  | .float x => !x.isZero
  | .string s => s != ""
  | .array items => !items.isEmpty
  | .object members => !members.isEmpty

/-- The member of an object; none if there is no such member, or the value is no object. -/
def member? (v : Value) (name : String) : Option Value :=
  match v with
  | .object members => OrderedMap.lookup name members
  | _ => none

/-- An object with members in the order in which their names come first; of members with one
name the last counts. -/
def ofMembers (members : List (String × Value)) : Value :=
  .object (OrderedMap.ofList members).entries

end Value

end SuperForward.Json
