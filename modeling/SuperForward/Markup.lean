/-
  Markup: texts with tags in brackets.

  A tag says how the text after it is to look, and is not shown itself. It begins with a small
  letter or with one of `#`, `/` and `@`, and has no bracket within. A backslash before a tag
  makes it a text, and two backslashes before a tag show one; before any other bracket a
  backslash is left out. Names of emoji stand for emoji, and a few control characters are left
  out. What is to be shown as it is has to be escaped before it is put into markup.
-/
import SuperForward.Markup.Emoji

namespace SuperForward.Markup

/-! ## Tags -/

/-- A character that a tag may begin with. -/
def beginsTag (c : Char) : Bool := ('a' ≤ c && c ≤ 'z') || c == '#' || c == '/' || c == '@'

/-- A character that a tag may hold. -/
def isInTag (c : Char) : Bool := c != '[' && c != ']'

/-- The tag at the head of a text, with its brackets, and the text after it. -/
def tag? : List Char → Option (List Char × List Char)
  | '[' :: c :: rest =>
    match beginsTag c, rest.dropWhile isInTag with
    | true, ']' :: after => some ('[' :: c :: rest.takeWhile isInTag ++ [']'], after)
    | _, _ => none
  | _ => none

/-- Several backslashes. -/
def backslashes (n : Nat) : List Char := List.replicate n '\\'

/-- A part of a text: one without tags, or a tag with the backslashes before it. -/
inductive Part where
  | text (cs : List Char)
  | tag (backslashes : Nat) (cs : List Char)
  deriving DecidableEq, Repr

/-- Puts a text before the parts that follow it. -/
def pushText (cs : List Char) : List Part → List Part
  | .text ds :: rest => .text (cs ++ ds) :: rest
  | parts => .text cs :: parts

/-- The parts of a text. Each of them takes a character at least, so the number of characters
bounds the number of parts. -/
def partsWithin : (bound : Nat) → List Char → List Part
  | 0, _ | _, [] => []
  | bound + 1, cs =>
    let rest := cs.dropWhile (· == '\\')
    let count := cs.length - rest.length
    match tag? rest, rest with
    | some (tag, after), _ => .tag count tag :: partsWithin bound after
    | none, [] => [.text (backslashes count)]
    | none, c :: rest => pushText (backslashes count ++ [c]) (partsWithin bound rest)

/-- The parts of a text, in order. -/
def parts (cs : List Char) : List Part := partsWithin cs.length cs

/-! ## Writing -/

/-- A part, so written that it is no tag. -/
def Part.escaped : Part → List Char
  | .text cs => cs
  | .tag n cs => backslashes (2 * n + 1) ++ cs

/-- The text ends in one backslash that has none before it. -/
def endsInOneBackslash (cs : List Char) : Bool :=
  match cs.reverse with
  | '\\' :: '\\' :: _ => false
  | '\\' :: _ => true
  | _ => false

/-- A text as it is put into markup. A lone backslash at its end is doubled, since a tag may
follow. -/
def escape (s : String) : String :=
  let cs := (parts s.toList).flatMap Part.escaped
  String.ofList (if endsInOneBackslash cs then cs ++ backslashes 1 else cs)

/-! ## Reading -/

/-- The text without the backslashes before brackets. -/
def bareBrackets : List Char → List Char
  | '\\' :: '[' :: rest => '[' :: bareBrackets rest
  | c :: rest => c :: bareBrackets rest
  | [] => []

/-- What is shown of a part. -/
def Part.shown : Part → List Char
  | .text cs => withEmoji (bareBrackets cs)
  | .tag n cs => backslashes (n / 2) ++ if n % 2 == 0 then [] else withEmoji cs

/-- The control characters that are left out: those that ring, go back, or go on otherwise than
by a new line or a tab. -/
def isDropped (c : Char) : Bool := ['\x07', '\x08', '\x0b', '\x0c', '\x0d'].contains c

/-- What is shown of a text with markup. -/
def plain (markup : String) : String :=
  String.ofList (((parts markup.toList).flatMap Part.shown).filter (!isDropped ·))

/-- What is shown of a text that stands alone in markup. -/
def plainText (s : String) : String := plain (escape s)

end SuperForward.Markup
