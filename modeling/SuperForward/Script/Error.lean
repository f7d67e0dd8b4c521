/-
  Why a script cannot be read, and where.
-/
import SuperForward.Text.Position
import SuperForward.Text.Quoted

namespace SuperForward.Script

open SuperForward.Text (Position)

/-- The causes for which a script is refused. -/
inductive Flaw where
  /-- No program goes on with this token. -/
  | unexpectedToken (text : String)
  /-- No token begins with this character. -/
  | unexpectedCharacter (c : Char)
  /-- Every program goes on here. -/
  | unexpectedEnd
  /-- The bytes of the file are no text. -/
  | notText (reason : String)
  /-- The file cannot be read. -/
  | unreadable (reason : String)
  deriving DecidableEq, Repr

namespace Flaw

/-- The wording of each cause. -/
def message : Flaw → String
  | .unexpectedToken text => "unexpected token " ++ Text.quoted text
  | .unexpectedCharacter c => "unexpected character " ++ Text.quoted (String.singleton c)
  | .unexpectedEnd => "unexpected end of input"
  | .notText reason => "not valid UTF-8 (" ++ reason ++ ")"
  | .unreadable reason => "cannot read file (" ++ reason ++ ")"

end Flaw

/-- A flaw and where it shows. -/
structure Error where
  place : Position
  flaw : Flaw
  deriving DecidableEq, Repr

/-- A script that was refused: its path and its error. -/
structure Refusal where
  path : String
  error : Error
  deriving DecidableEq, Repr

namespace Refusal

/-- What is wrong, without the place. -/
def detail (r : Refusal) : String := r.error.flaw.message

/-- The path, the place and what is wrong. -/
def message (r : Refusal) : String :=
  r.path ++ ":" ++ toString r.error.place.line ++ ":" ++ toString r.error.place.column ++ ": "
    ++ r.detail

end Refusal

end SuperForward.Script
