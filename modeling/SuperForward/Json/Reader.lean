/-
  Reading values from text.

  The names of members and the texts must be in double quotes without raw control characters;
  the names of the numbers that are no decimals are read as well. Nothing may follow the value.
-/
import SuperForward.Json.Value
import SuperForward.Text.Quoted

namespace SuperForward.Json

open SuperForward.Decimal (Double)
open SuperForward.Text (hexValue?)

/-- White space between values. -/
def isSpace (c : Char) : Bool := c == ' ' || c == '\t' || c == '\n' || c == '\r'

/-- The text after white space. -/
def skip (cs : List Char) : List Char := cs.dropWhile isSpace

/-! ## Texts -/

/-- The number that four hexadecimal digits at the head of a text make. -/
def hexCode? : List Char → Option (Nat × List Char)
  | a :: b :: c :: d :: rest => do
    let n := (((← hexValue? a) * 16 + (← hexValue? b)) * 16 + (← hexValue? c)) * 16
      + (← hexValue? d)
    return (n, rest)
  | _ => none

/-- The first half of a pair that stands for one character. -/
def isHighHalf (n : Nat) : Bool := 0xd800 ≤ n && n < 0xdc00

/-- The second half of a pair. -/
def isLowHalf (n : Nat) : Bool := 0xdc00 ≤ n && n < 0xe000

/-- The character of a code; a half without its other half stands for the replacement
character. -/
def charOfCode (n : Nat) : Char :=
  if isHighHalf n || isLowHalf n then Char.ofNat 0xfffd else Char.ofNat n

/-- The character that a numeric escape stands for, or two of them as a pair. -/
def codeEscape? (cs : List Char) : Option (Char × List Char) := do
  let (n, rest) ← hexCode? cs
  if isHighHalf n then
    match rest with
    | '\\' :: 'u' :: more =>
      match hexCode? more with
      | some (m, rest') =>
        if isLowHalf m then
          return (Char.ofNat (0x10000 + (n - 0xd800) * 0x400 + (m - 0xdc00)), rest')
      | none => pure ()
    | _ => pure ()
  return (charOfCode n, rest)

/-- The character after a backslash. -/
def escape? : List Char → Option (Char × List Char)
  | '"' :: rest => some ('"', rest)
  | '\\' :: rest => some ('\\', rest)
  | '/' :: rest => some ('/', rest)
  | 'b' :: rest => some ('\x08', rest)
  | 'f' :: rest => some ('\x0c', rest)
  | 'n' :: rest => some ('\n', rest)
  | 'r' :: rest => some ('\r', rest)
  | 't' :: rest => some ('\t', rest)
  | 'u' :: rest => codeEscape? rest
  | _ => none

/-- The rest of a text after its opening quote. Each step takes a character, so the number of
characters bounds the number of steps. -/
def stringRest? : (bound : Nat) → List Char → Option (List Char × List Char)
  | 0, _ | _, [] => none
  | bound + 1, c :: rest =>
    if c == '"' then some ([], rest)
    else if c == '\\' then do
      let (d, rest) ← escape? rest
      let (ds, rest) ← stringRest? bound rest
      return (d :: ds, rest)
    else if c.toNat < 0x20 then none
    else do
      let (ds, rest) ← stringRest? bound rest
      return (c :: ds, rest)

/-- A text with its quotes. -/
def string? : List Char → Option (String × List Char)
  | '"' :: rest => (stringRest? rest.length rest).map fun (cs, rest) => (String.ofList cs, rest)
  | _ => none

/-! ## Numbers -/

/-- The number that decimal digits make. -/
def naturalOf (digits : List Char) : Nat := digits.foldl (fun n c => n * 10 + (c.toNat - 0x30)) 0

/-- Digits at the head of a text. -/
def digits (cs : List Char) : List Char := cs.takeWhile Char.isDigit

/-- The whole part at the head of a text: a zero, or digits that do not begin with one. -/
def wholePart? : List Char → Option (List Char)
  | '0' :: _ => some ['0']
  | cs => if (digits cs).isEmpty then none else some (digits cs)

/-- The digits after a point; none if there is no digit. -/
def fractionPart? : List Char → Option (List Char)
  | '.' :: rest => if (digits rest).isEmpty then none else some (digits rest)
  | _ => none

/-- The exponent and the number of characters it takes; none if there is no digit. -/
def exponentPart? : List Char → Option (Int × Nat)
  | e :: rest =>
    if e == 'e' || e == 'E' then
      let (negative, sign) := match rest with
        | '-' :: _ => (true, 1)
        | '+' :: _ => (false, 1)
        | _ => (false, 0)
      let ds := digits (rest.drop sign)
      if ds.isEmpty then none
      else
        let n : Int := naturalOf ds
        some (if negative then -n else n, 1 + sign + ds.length)
    else none
  | [] => none

/-- A number without its sign. -/
def magnitude? (negative : Bool) (cs : List Char) : Option (Value × List Char) := do
  let whole ← wholePart? cs
  let afterWhole := cs.drop whole.length
  let fraction := fractionPart? afterWhole
  let afterFraction := match fraction with
    | some ds => afterWhole.drop (ds.length + 1)
    | none => afterWhole
  let exponent := exponentPart? afterFraction
  if fraction.isNone && exponent.isNone then
    let n : Int := naturalOf whole
    return (.int (if negative then -n else n), afterWhole)
  let ds := fraction.getD []
  let (e, length) := exponent.getD (0, 0)
  return (.float (.ofDecimal negative (naturalOf (whole ++ ds)) (e - ds.length)),
    afterFraction.drop length)

/-- The text after a word at its head. -/
def word? (word : String) (cs : List Char) : Option (List Char) :=
  if word.toList.isPrefixOf cs then some (cs.drop word.toList.length) else none

/-- A number, or the name of one that is no decimal. -/
def number? (cs : List Char) : Option (Value × List Char) :=
  match cs with
  | '-' :: rest =>
    match word? "Infinity" rest with
    | some rest => some (.float (.infinite true), rest)
    | none => magnitude? true rest
  | cs => magnitude? false cs

/-- One of the words that stand for a value. -/
def literal? (cs : List Char) : Option (Value × List Char) :=
  let words : List (String × Value) := [
    ("null", .null), ("true", .bool true), ("false", .bool false),
    ("NaN", .float .notANumber), ("Infinity", .float (.infinite false))]
  words.findSome? fun (word, v) => (word? word cs).map fun rest => (v, rest)

/-! ## Values -/

mutual

/-- A value at the head of a text, read in at most so many steps. -/
def value? : (bound : Nat) → List Char → Option (Value × List Char)
  | 0, _ => none
  | bound + 1, cs =>
    match cs with
    | '"' :: _ => (string? cs).map fun (s, rest) => (.string s, rest)
    | '[' :: rest =>
      match skip rest with
      | ']' :: rest => some (.array [], rest)
      | rest => do
        let (items, rest) ← items? bound rest
        return (.array items, rest)
    | '\x7b' :: rest =>
      match skip rest with
      | '\x7d' :: rest => some (.object [], rest)
      | rest => do
        let (members, rest) ← members? bound rest
        return (.ofMembers members, rest)
    | cs => (literal? cs).or (number? cs)

/-- The items of an array up to its closing bracket. -/
def items? : (bound : Nat) → List Char → Option (List Value × List Char)
  | 0, _ => none
  | bound + 1, cs => do
    let (v, rest) ← value? bound cs
    match skip rest with
    | ']' :: rest => return ([v], rest)
    | ',' :: rest =>
      let (vs, rest) ← items? bound (skip rest)
      return (v :: vs, rest)
    | _ => none

/-- The members of an object up to its closing brace. -/
def members? : (bound : Nat) → List Char → Option (List (String × Value) × List Char)
  | 0, _ => none
  | bound + 1, cs => do
    let (name, rest) ← string? cs
    let ':' :: rest := skip rest | none
    let (v, rest) ← value? bound (skip rest)
    match skip rest with
    | '\x7d' :: rest => return ([(name, v)], rest)
    | ',' :: rest =>
      let (ms, rest) ← members? bound (skip rest)
      return ((name, v) :: ms, rest)
    | _ => none

end

/-- The value that a whole text stands for. A value, an item or a member takes a character at
least, and no more than two steps. -/
def Value.ofText? (text : String) : Option Value := do
  let cs := text.toList
  let (v, rest) ← value? (2 * cs.length + 1) (skip cs)
  if (skip rest).isEmpty then return v else none

end SuperForward.Json
