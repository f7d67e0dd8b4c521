/-
  Why an operation on files fails, and how it is said.
-/
import SuperForward.Text.Quoted

namespace SuperForward.Files

/-- The causes for which the file system refuses an operation. -/
inductive Cause where
  | missing | denied | exists | notDirectory | isDirectory | nameTooLong
  deriving DecidableEq, Repr

namespace Cause

/-- The number of a cause. -/
def number : Cause → Nat
  | .missing => 2
  | .denied => 13
  | .exists => 17
  | .notDirectory => 20
  | .isDirectory => 21
  | .nameTooLong => 36

/-- The words for a cause. -/
def text : Cause → String
  | .missing => "No such file or directory"
  | .denied => "Permission denied"
  | .exists => "File exists"
  | .notDirectory => "Not a directory"
  | .isDirectory => "Is a directory"
  | .nameTooLong => "File name too long"

end Cause

/-- A refused operation, with the path or the two paths that it was about, as they were written;
a file that was to be copied onto itself; or a path that the file system cannot be asked for. -/
inductive Error where
  | refused (cause : Cause) (path : String)
  | refusedMove (cause : Cause) (source target : String)
  | sameFile (source target : String)
  /-- A null character stands in a path. -/
  | nullCharacter
  deriving DecidableEq, Repr

namespace Error

/-- How a refusal begins. -/
def head (cause : Cause) : String :=
  "[Errno " ++ toString cause.number ++ "] " ++ cause.text ++ ": "

/-- The wording of each failure. -/
def message : Error → String
  | .refused cause path => head cause ++ Text.quoted path
  | .refusedMove cause source target =>
    head cause ++ Text.quoted source ++ " -> " ++ Text.quoted target
  | .sameFile source target =>
    Text.quoted source ++ " and " ++ Text.quoted target ++ " are the same file"
  | .nullCharacter => "embedded null byte"

/-- The failure of an operation on a path that was written in another way. -/
def about (text : String) : Error → Error
  | .refused cause _ => .refused cause text
  | error => error

/-- The failure of a move, of which a path was refused. -/
def ofMove (source target : String) : Error → Error
  | .refused cause _ => .refusedMove cause source target
  | error => error

end Error

end SuperForward.Files
