/-
  Writing values as text.

  Texts keep their characters, apart from quotes, backslashes and controls. With an indent,
  every item and every member has a line of its own, and empty arrays and objects stay short;
  without one, everything is on one line.
-/
import SuperForward.Json.Value
import SuperForward.Text.Quoted

namespace SuperForward.Json

/-- Numbers are written without an exponent from four zeros after the point to sixteen digits
before it. -/
def numberStyle : Decimal.Style := ⟨-3, 16⟩

/-- A character inside quotes. -/
def escapeChar (c : Char) : List Char :=
  if c == '"' || c == '\\' then ['\\', c]
  else if c == '\n' then ['\\', 'n']
  else if c == '\r' then ['\\', 'r']
  else if c == '\t' then ['\\', 't']
  else if c == '\x0c' then ['\\', 'f']
  else if c == '\x08' then ['\\', 'b']
  else if c.toNat < 0x20 then '\\' :: 'u' :: Text.hexDigits 4 c.toNat
  else [c]

/-- A text in quotes. -/
def quoted (s : String) : String :=
  String.ofList ('"' :: s.toList.flatMap escapeChar ++ ['"'])

/-- How what stands inside arrays and objects is set apart. -/
inductive Layout where
  | oneLine
  | lines (indent : Nat)
  deriving DecidableEq, Repr

namespace Layout

/-- The break before an item at a depth. -/
def lineBreak (layout : Layout) (depth : Nat) : String :=
  match layout with
  | .oneLine => ""
  | .lines indent => String.ofList ('\n' :: List.replicate (indent * depth) ' ')

/-- What stands between items at a depth. -/
def separator (layout : Layout) (depth : Nat) : String :=
  match layout with
  | .oneLine => ", "
  | .lines _ => "," ++ layout.lineBreak depth

/-- Items between brackets, for a depth outside. -/
def enclose (layout : Layout) (depth : Nat) (opening closing : String) (items : List String) :
    String :=
  match items with
  | [] => opening ++ closing
  | items =>
    opening ++ layout.lineBreak (depth + 1) ++ (layout.separator (depth + 1)).intercalate items
      ++ layout.lineBreak depth ++ closing

end Layout

namespace Value

mutual

/-- A value at a depth. -/
def writeAt (layout : Layout) (depth : Nat) : Value → String
  | .null => "null"
  | .bool true => "true"
  | .bool false => "false"
  | .int n => toString n
  | .float x => x.write numberStyle
  | .string s => quoted s
  | .array items => layout.enclose depth "[" "]" (writeItems layout (depth + 1) items)
  | .object members => layout.enclose depth "\x7b" "\x7d" (writeMembers layout (depth + 1) members)

/-- The items of an array. -/
def writeItems (layout : Layout) (depth : Nat) : List Value → List String
  | [] => []
  | v :: rest => writeAt layout depth v :: writeItems layout depth rest

/-- The members of an object. -/
def writeMembers (layout : Layout) (depth : Nat) : List (String × Value) → List String
  | [] => []
  | (name, v) :: rest =>
    (quoted name ++ ": " ++ writeAt layout depth v) :: writeMembers layout depth rest

end

/-- A value as text. -/
def write (layout : Layout) (v : Value) : String := v.writeAt layout 0

end Value

end SuperForward.Json
