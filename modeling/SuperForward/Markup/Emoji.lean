/-
  Emoji by name: a name between two colons stands for the emoji of that name.

  Upper and lower case of a name are the same. A name may end in `-text` or `-emoji`, which asks
  for the plain or for the coloured form. Two colons with an unknown name between them stay,
  and neither of them begins or ends another name.
-/
import SuperForward.Markup.EmojiTable
import SuperForward.Text.Blank
import SuperForward.Text.Case
import SuperForward.Text.Pieces
import SuperForward.Text.Quoted

namespace SuperForward.Markup

/-! ## Names -/

/-- The character of a code in hexadecimal digits. -/
def charOfCode (digits : List Char) : Char :=
  Char.ofNat ((digits.filterMap Text.hexValue?).foldl (fun n d => n * 16 + d) 0)

/-- The characters of an entry, if it is the one of a name. -/
def entryFor? (name entry : List Char) : Option (List Char) :=
  let (found, codes) := entry.span (· != ':')
  if found == name then some ((Text.pieces (· == '-') (codes.drop 1)).map charOfCode) else none

/-- The emoji of a name. -/
def emoji? (name : List Char) : Option (List Char) := do
  let entries ← emojiEntries.lookup (← name.head?)
  (Text.pieces Text.isBlank entries.toList).findSome? (entryFor? name)

/-- The endings of a name that ask for a form, and the character that selects the form. -/
def formEndings : List (List Char × Char) := [("-text".toList, '\ufe0e'), ("-emoji".toList, '\ufe0f')]

/-- The name without its ending, and what selects the form that the ending asks for. -/
def splitForm (name : List Char) : List Char × List Char :=
  match formEndings.find? (·.1.isSuffixOf name) with
  | some (ending, selector) => (name.take (name.length - ending.length), [selector])
  | none => (name, [])

/-- What a text between two colons stands for. -/
def named? (text : List Char) : Option (List Char) := do
  let (name, selector) := splitForm text
  return (← emoji? (Text.toLower (String.ofList name)).toList) ++ selector

/-! ## Texts -/

/-- A text with its names replaced. Each step takes a character at least, so the number of
characters bounds the number of steps. -/
def withEmojiWithin : (bound : Nat) → List Char → List Char
  | 0, _ | _, [] => []
  | bound + 1, ':' :: rest =>
    let (name, after) := rest.span fun c => c != ':' && !Text.isBlank c
    match after with
    | ':' :: after => (named? name).getD (':' :: name ++ [':']) ++ withEmojiWithin bound after
    | _ => ':' :: withEmojiWithin bound rest
  | bound + 1, c :: rest => c :: withEmojiWithin bound rest

/-- A text with its names replaced by what they stand for. -/
def withEmoji (cs : List Char) : List Char := withEmojiWithin cs.length cs

end SuperForward.Markup
