/-!
# Failures of file operations
-/

namespace LayeredConfig.File

/-- Why a file operation fails. -/
inductive Failure where
  | noEntry
  | isDirectory
  | notDirectory
  | alreadyExists
  deriving DecidableEq, Repr

/-- The usual wording of a failure. -/
def Failure.text : Failure → String
  | .noEntry => "No such file or directory"
  | .isDirectory => "Is a directory"
  | .notDirectory => "Not a directory"
  | .alreadyExists => "File exists"

end LayeredConfig.File
