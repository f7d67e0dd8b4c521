/-
  From the text of a script to its statements.

  The first token that fits in no program is reported before a character that begins no token,
  if it comes before it. If the text ends too early, the place is that of its last token.
-/
import SuperForward.Script.Error
import SuperForward.Script.Lexer
import SuperForward.Script.Reader

namespace SuperForward.Script

open SuperForward.Text (Position)

/-- The place where the last of some tokens begins. -/
def lastPlace (tokens : List Token) : Position :=
  (tokens.getLast?.map (·.place)).getD .origin

/-- What is wrong if the tokens fit as far as they go. -/
def Scan.endError (s : Scan) : Error :=
  match s.ending with
  | .badCharacter c place => ⟨place, .unexpectedCharacter c⟩
  | .endOfText => ⟨lastPlace s.tokens, .unexpectedEnd⟩

/-- The statements of a scanned text. -/
def statementsOf (s : Scan) : Except Error (List Tree) :=
  match readStatements s.tokens, s.ending with
  | .done statements _, .endOfText => .ok statements
  | .done _ _, .badCharacter c place => .error ⟨place, .unexpectedCharacter c⟩
  | .stuck (t :: _), _ => .error ⟨t.place, .unexpectedToken t.text⟩
  | .stuck [], _ => .error s.endError

/-- The statements of a text. -/
def read (text : String) : Except Error (List Tree) := statementsOf (scan text.toList)

end SuperForward.Script
