/-
  Documentation comments: the tags they carry, the return type they declare and the superclass
  they name.

  A tag is an at sign and a word; a type in braces may follow it on the same line, with at most
  one more pair of braces inside it. The first return tag with a type decides the return type,
  the first superclass tag with a type or a bare name decides the superclass, and a blank type
  decides that there is none.
-/
import SuperForward.Text.Blank
import SuperForward.Text.WordChar

namespace SuperForward

open SuperForward.Text (isWordChar)

/-- What a documentation comment says, and the offset at which it begins. -/
structure DocComment where
  tags : List String
  returnType : Option String
  superclass : Option String
  start : Nat
  deriving DecidableEq, Repr, Inhabited

namespace DocComment

/-- The comment carries the tag. -/
def hasTag (doc : DocComment) (tag : String) : Bool := doc.tags.contains tag

/-- The function it belongs to makes objects. -/
def isConstructor (doc : DocComment) : Bool := doc.hasTag "constructor"

/-- The function it belongs to only names an interface. -/
def isInterface (doc : DocComment) : Bool := doc.hasTag "interface" || doc.hasTag "record"

/-- The method it belongs to takes the place of an inherited one. -/
def isOverride (doc : DocComment) : Bool := doc.hasTag "override" || doc.hasTag "inheritDoc"

/-! ## Tags -/

/-- A tag with what may follow it: a type in braces, or else a bare name. -/
structure Tag where
  name : String
  braced : Option String
  bare : Option String
  deriving DecidableEq, Repr

/-- A character that a tag begins with. -/
def isTagStart (c : Char) : Bool := c.isAlpha || c == '_'

/-- A character that a tag goes on with. -/
def isTagPart (c : Char) : Bool := isTagStart c || c.isDigit

/-- Blanks within a line. -/
def isLineBlank (c : Char) : Bool := c == ' ' || c == '\t'

/-- The length of a type up to its closing brace, which is not counted. `inner` tells whether
a second pair of braces is open. -/
def typeLength (inner : Bool) : List Char → Option Nat
  | [] => none
  | c :: rest =>
    if c == '\x7d' then if inner then (typeLength false rest).map (· + 1) else some 0
    else if c == '\x7b' then if inner then none else (typeLength true rest).map (· + 1)
    else if c == '\n' then none
    else (typeLength inner rest).map (· + 1)

/-- The type in braces at the head of a text, and the text after it. -/
def bracedType? : List Char → Option (String × List Char)
  | '\x7b' :: rest =>
    (typeLength false rest).map fun n => (String.ofList (rest.take n), rest.drop (n + 1))
  | _ => none

/-- The name at the head of a text, blanks before it allowed. -/
def bareType? (cs : List Char) : Option String :=
  match cs.dropWhile isLineBlank with
  | c :: rest =>
    if isTagStart c || c == '$' then
      some (String.ofList (c :: rest.takeWhile fun d => isWordChar d || d == '$' || d == '.'))
    else none
  | [] => none

/-- The tag whose at sign stands just before the text, and the text after it. -/
def tagAt? : List Char → Option (Tag × List Char)
  | c :: rest =>
    if isTagStart c then
      let name := String.ofList (c :: rest.takeWhile isTagPart)
      let after := (rest.dropWhile isTagPart).dropWhile isLineBlank
      match bracedType? after with
      | some (type, after) => some (⟨name, some type, none⟩, after)
      | none => some (⟨name, none, bareType? after⟩, after)
    else none
  | [] => none

/-- The tags of a text, from left to right. Each step takes a character, so the length of the
text bounds the number of steps. -/
def tagsWithin : (bound : Nat) → List Char → List Tag
  | 0, _ | _, [] => []
  | bound + 1, '@' :: rest =>
    match tagAt? rest with
    | some (tag, after) => tag :: tagsWithin bound after
    | none => tagsWithin bound rest
  | bound + 1, _ :: rest => tagsWithin bound rest

/-- The tags of a text, from left to right. -/
def tagsOf (cs : List Char) : List Tag := tagsWithin cs.length cs

/-! ## Reading -/

/-- A comment that documents: opened by two stars, and not the empty comment. -/
def isDocComment (comment : String) : Bool :=
  comment.startsWith "/**" && comment.endsWith "*/" && comment != "/**/"

/-- Takes in one more tag; what is decided stays. -/
def addTag (doc : DocComment) (tag : Tag) : DocComment :=
  let doc := if doc.tags.contains tag.name then doc else { doc with tags := doc.tags ++ [tag.name] }
  if tag.name == "return" || tag.name == "returns" then
    { doc with returnType := doc.returnType.or (tag.braced.map Text.trim) }
  else if tag.name == "extends" || tag.name == "augments" then
    { doc with superclass := doc.superclass.or ((tag.braced.map Text.trim).or tag.bare) }
  else doc

/-- A blank text stands for nothing. -/
def nonblank? (s : String) : Option String := if s == "" then none else some s

/-- What a comment with its delimiters says; none unless it documents. An exclamation mark
before the superclass does not belong to its name. -/
def read? (comment : String) (start : Nat) : Option DocComment :=
  if isDocComment comment then
    let doc := (tagsOf comment.toList).foldl addTag ⟨[], none, none, start⟩
    some { doc with
      returnType := doc.returnType.bind nonblank?
      superclass := doc.superclass.bind fun s => nonblank? (Text.trimStartOf (· == '!') s) }
  else none

end DocComment

end SuperForward
