/-
  Why an operation of the backup store fails, and how it is said.
-/
import SuperForward.Files.Error
import SuperForward.Json.Access
import SuperForward.Text.Utf8

namespace SuperForward.Backup

/-- The causes of failure. -/
inductive Fault where
  /-- The file system refuses an operation. -/
  | files (error : Files.Error)
  /-- The bytes of the manifest are no text. -/
  | notText (error : Text.Utf8.Error)
  /-- The manifest is not made as a manifest is. -/
  | misfit (cause : Json.Misfit)
  /-- The file to back up is not there. -/
  | noSource (path : String)
  /-- No record has the id. -/
  | unknownId (id : String)
  /-- The copy is not there any more. -/
  | noCopy (path : String)
  deriving DecidableEq, Repr

namespace Fault

/-- The wording of each cause. -/
def message : Fault → String
  | .files error => error.message
  | .notText error => error.message
  | .misfit cause => cause.message
  | .noSource path => "File not found: " ++ path
  | .unknownId id => "Backup ID not found: " ++ id
  | .noCopy path => "Backup file not found in trash: " ++ path

/-- The failure is one of the file system, of the store's files, or of what was asked for, and
not one of a manifest that is made in a different way. -/
def isExpected : Fault → Bool
  | .misfit _ => false
  | _ => true

end Fault

end SuperForward.Backup
