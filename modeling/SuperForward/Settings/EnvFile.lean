/-
  Environment files: lines that give names values.

  A line is `NAME=value`, with blanks where one expects them, or only a name, which takes the
  value away. A value may stand in quotes and then go over several lines; otherwise it ends
  with its line, or before a blank and a number sign. A line that is none of this is passed
  over. In values, names in braces after a dollar sign stand for the values they have.
-/
import SuperForward.Data.OrderedMap
import SuperForward.Text.Blank
import SuperForward.Text.Utf8

namespace SuperForward.Settings

open SuperForward.Text (isBlank dropTailWhile)

/-- Names with their values. -/
abbrev Environment := OrderedMap String String

namespace EnvFile

/-! ## Pieces of lines -/

/-- A character that ends a line. -/
def isBreak (c : Char) : Bool := c == '\n' || c == '\r'

/-- A blank within a line. -/
def isLineBlank (c : Char) : Bool := isBlank c && !isBreak c

/-- The text after the blanks of a line. -/
def skipBlanks (cs : List Char) : List Char := cs.dropWhile isLineBlank

/-- The text after the end of a line; none if something else stands before it. -/
def lineEnd? (cs : List Char) : Option (List Char) :=
  match skipBlanks cs with
  | [] => some []
  | '\r' :: '\n' :: rest => some rest
  | c :: rest => if isBreak c then some rest else none

/-- The text after the rest of a line, whatever it is. -/
def nextLine (cs : List Char) : List Char := (cs.dropWhile (!isBreak ·)).drop 1

/-- The text after a comment, if there is one. -/
def skipComment (cs : List Char) : List Char :=
  match skipBlanks cs with
  | '#' :: rest => rest.dropWhile (!isBreak ·)
  | _ => cs

/-- The text after a leading `export` and blanks, if it begins so. -/
def skipExport (cs : List Char) : List Char :=
  let word := "export".toList
  if word.isPrefixOf cs then
    match cs.drop word.length with
    | c :: rest => if isLineBlank c then skipBlanks rest else cs
    | [] => cs
  else cs

/-! ## Names -/

/-- A character of a name without quotes. -/
def isNameChar (c : Char) : Bool := c != '=' && c != '#' && !isBlank c

/-- The name at the head of a line, in single quotes or without. -/
def name? (cs : List Char) : Option (List Char × List Char) :=
  match cs with
  | '\'' :: rest =>
    let (name, after) := rest.span (· != '\'')
    if name.isEmpty then none
    else match after with
      | _ :: rest => some (name, rest)
      | [] => none
  | cs =>
    let (name, rest) := cs.span isNameChar
    if name.isEmpty then none else some (name, rest)

/-! ## Values -/

/-- The text up to the quote that closes it, and the text after that quote. A backslash and the
character after it belong together, so a quote after a backslash closes nothing. -/
def untilQuote? (quote : Char) : List Char → Option (List Char × List Char)
  | [] => none
  | '\\' :: c :: rest => do
    let (text, after) ← untilQuote? quote rest
    return ('\\' :: c :: text, after)
  | c :: rest =>
    if c == quote then some ([], rest)
    else do
      let (text, after) ← untilQuote? quote rest
      return (c :: text, after)

/-- What an escape stands for, within a kind of quotes. -/
def escaped? (quote c : Char) : Option Char :=
  if c == '\\' || c == '\'' then some c
  else if quote == '\'' then none
  else match c with
    | '"' => some '"'
    | 'a' => some '\x07'
    | 'b' => some '\x08'
    | 'f' => some '\x0c'
    | 'n' => some '\n'
    | 'r' => some '\r'
    | 't' => some '\t'
    | 'v' => some '\x0b'
    | _ => none

/-- A quoted text with its escapes replaced. -/
def unescape (quote : Char) : List Char → List Char
  | '\\' :: c :: rest =>
    match escaped? quote c with
    | some d => d :: unescape quote rest
    | none => '\\' :: unescape quote (c :: rest)
  | c :: rest => c :: unescape quote rest
  | [] => []

/-- The text before a blank and a number sign. -/
def beforeComment : List Char → List Char
  | [] => []
  | c :: rest =>
    if isBlank c && (rest.dropWhile isBlank).head? == some '#' then []
    else c :: beforeComment rest

/-- The value that follows an equals sign, and the text after it. Blanks before a value do not
belong to it, but a number sign after them begins a comment. -/
def value? (cs : List Char) : Option (List Char × List Char) :=
  match skipBlanks cs with
  | [] => some ([], [])
  | c :: rest =>
    if c == '\'' || c == '"' then do
      let (text, after) ← untilQuote? c rest
      return (unescape c text, after)
    else
      let (line, after) := cs.span (!isBreak ·)
      some (dropTailWhile isBlank (skipBlanks (beforeComment line)), after)

/-! ## Lines -/

/-- What a line says: a name and its value, if it has any, or nothing. -/
structure Line where
  binding : Option (String × Option String)
  rest : List Char

/-- A line whose name and value have been read, if nothing but a comment follows. -/
def finish (binding : Option (String × Option String)) (rest after : List Char) : Line :=
  match lineEnd? (skipComment rest) with
  | some rest => ⟨binding, rest⟩
  | none => ⟨none, nextLine after⟩

/-- Reads a line. What cannot be read is passed over from where it stops making sense. -/
def line (cs : List Char) : Line :=
  let cs := skipExport cs
  match cs with
  | '#' :: _ => finish none cs (skipComment cs)
  | cs =>
    match name? cs with
    | none => ⟨none, nextLine cs⟩
    | some (name, rest) =>
      let rest := skipBlanks rest
      let name := String.ofList name
      match rest with
      | '=' :: rest =>
        match value? rest with
        | none => ⟨none, nextLine rest⟩
        | some (value, rest) =>
          finish (some (name, some (String.ofList value))) rest (skipComment rest)
      | rest => finish (some (name, none)) rest (skipComment rest)

/-- The names and values of a text, in order. A line takes a character at least, so the number
of characters bounds the number of lines. -/
def bindingsWithin : (bound : Nat) → List Char → List (String × Option String)
  | 0, _ => []
  | bound + 1, cs =>
    match cs.dropWhile isBlank with
    | [] => []
    | cs =>
      let l := line cs
      l.binding.toList ++ bindingsWithin bound l.rest

/-- The text after the mark of byte order that a file may begin with. -/
def skipMark : List Char → List Char
  | '\ufeff' :: rest => rest
  | cs => cs

/-- The names and values of a text, in order. -/
def bindings (text : String) : List (String × Option String) :=
  let cs := Text.unifyBreaks (skipMark text.toList)
  bindingsWithin (cs.length + 1) cs

/-! ## Names within values -/

/-- A name in braces, with what it stands for if it has no value, and the text after it. -/
def reference? (cs : List Char) : Option (String × String × List Char) :=
  let (name, rest) := cs.span fun c => c != '\x7d' && c != ':'
  let name := String.ofList name
  match rest with
  | '\x7d' :: rest => some (name, "", rest)
  | ':' :: '-' :: rest =>
    let (fallback, rest) := rest.span (· != '\x7d')
    match rest with
    | _ :: rest => some (name, String.ofList fallback, rest)
    | [] => none
  | _ => none

/-- A value with the names in it replaced by what they stand for. -/
def expandWithin (valueOf : String → String → String) : (bound : Nat) → List Char → List Char
  | 0, _ | _, [] => []
  | bound + 1, '$' :: '\x7b' :: rest =>
    match reference? rest with
    | some (name, fallback, rest) =>
      (valueOf name fallback).toList ++ expandWithin valueOf bound rest
    | none => '$' :: expandWithin valueOf bound ('\x7b' :: rest)
  | bound + 1, c :: rest => c :: expandWithin valueOf bound rest

/-- The names that stand in a value. -/
def referencesIn : (bound : Nat) → List Char → List String
  | 0, _ | _, [] => []
  | bound + 1, '$' :: '\x7b' :: rest =>
    match reference? rest with
    | some (name, _, rest) => name :: referencesIn bound rest
    | none => referencesIn bound ('\x7b' :: rest)
  | bound + 1, _ :: rest => referencesIn bound rest

/-- The names whose values in the environment matter for a text. -/
def namesIn (text : String) : List String :=
  (bindings text).flatMap fun (name, value) =>
    let cs := (value.getD "").toList
    name :: referencesIn (cs.length + 1) cs

/-- What a name stands for: what the environment says, or else what the lines before say. -/
def valueOf (environment : Environment) (before : OrderedMap String (Option String))
    (name fallback : String) : String :=
  match environment.get? name with
  | some value => value
  | none =>
    match before.get? name with
    | some value => value.getD ""
    | none => fallback

/-- The values with the names in them replaced, each by what the lines before say. -/
def expandAll (environment : Environment) (bindings : List (String × Option String)) :
    OrderedMap String (Option String) :=
  bindings.foldl (fun before (name, value) =>
    before.insert name (value.map fun v =>
      String.ofList (expandWithin (valueOf environment before) (v.toList.length + 1) v.toList)))
    .empty

/-- Why a value cannot be taken into the environment. -/
inductive Flaw where
  /-- An equals sign stands in the name. -/
  | badName
  /-- A null character stands in the name or in the value. -/
  | nullCharacter
  deriving DecidableEq, Repr

/-- The wording of each flaw. -/
def Flaw.message : Flaw → String
  | .badName => "illegal environment variable name"
  | .nullCharacter => "embedded null byte"

/-- The environment with one more value; a name that has a value keeps it. -/
def define (environment : Environment) (name : String) (value : Option String) :
    Except Flaw Environment :=
  match value with
  | none => .ok environment
  | some value =>
    if environment.contains name then .ok environment
    else if name.toList.contains '\x00' || value.toList.contains '\x00' then
      .error .nullCharacter
    else if name.toList.contains '=' then .error .badName
    else .ok (environment.insert name value)

/-- The environment with the values of a file. -/
def load (environment : Environment) (text : String) : Except Flaw Environment :=
  (expandAll environment (bindings text)).entries.foldlM
    (fun e (name, value) => define e name value) environment

end EnvFile

end SuperForward.Settings
