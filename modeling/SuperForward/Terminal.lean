/-
  Terminals: what they can show, and what stands in for what they cannot.
-/
import SuperForward.Markup

namespace SuperForward.Terminal

/-- The encoding of the terminal, in small letters; what the system prefers, if the terminal
does not say. -/
def encoding (stated : Option String) (preferred : String) : String :=
  match stated with
  | some name => Text.toLower (if name == "" then preferred else name)
  | none => Text.toLower preferred

/-- The encoding that a locale names, such as `utf-8` in `de_DE.utf-8@euro`. -/
def encodingOfLocale (locale : String) : Option String :=
  match (locale.toList.dropWhile (· != '.')).drop 1 with
  | [] => none
  | cs => some (String.ofList (cs.takeWhile (· != '@')))

/-- The encoding holds every character. -/
def isUnicode (encoding : String) : Bool :=
  let name := encoding.map fun c => if c == '_' then '-' else c
  name == "utf-8" || name == "utf8"

/-- Icons and what stands in for them. -/
def standIns : List (Char × String) := [
  ('\u2713', "[OK]"), ('\u2714', "[OK]"), ('\u2717', "[FAIL]"), ('\u2718', "[FAIL]"),
  ('\u26a0', "[WARN]"), ('\u2192', "->"), ('\u2190', "<-"), ('\u2026', "..."), ('\u2022', "*")]

/-- What is shown for a character. -/
def plainChar (c : Char) : List Char :=
  match standIns.lookup c with
  | some text => text.toList
  | none => [c]

/-- The text without icons. -/
def plain (text : String) : String := String.ofList (text.toList.flatMap plainChar)

/-- The text as a terminal shows it. -/
def shown (encoding text : String) : String := if isUnicode encoding then text else plain text

/-- What printing texts with markup shows: the texts with spaces between them, and a new line. -/
def printed (encoding : String) (texts : List String) : String :=
  " ".intercalate (texts.map fun text => Markup.plain (shown encoding text)) ++ "\n"

/-- The animation that a terminal can show while work goes on. -/
def spinner (encoding : String) : String := if isUnicode encoding then "dots" else "line"

end SuperForward.Terminal
