/-
Why there is no source text at a path: nothing is stored there in memory, or the system that keeps the disk refuses to
read there. A refusal's message is the system's own.
-/
namespace TypedScript

inductive LoadError
  /-- nothing is stored in memory under the path -/
  | notStored (path : String)
  /-- a name on the way is not on the disk -/
  | missing
  /-- the path goes on behind a file -/
  | notDirectory
  /-- the path ends at a directory -/
  | isDirectory
  /-- a name or the whole path is too long -/
  | tooLong
  /-- the path holds the null character -/
  | nullCharacter
deriving DecidableEq, Inhabited

namespace LoadError

/-- the name of the kind of error -/
def name : LoadError → String
  | notStored _ => "NotFound"
  | missing => "NotFound"
  | notDirectory => "NotADirectory"
  | isDirectory => "IsADirectory"
  | tooLong => "InvalidFilename"
  | nullCharacter => "InvalidInput"

def message : LoadError → String
  | notStored path => "no module at " ++ path
  | missing => "No such file or directory (os error 2)"
  | notDirectory => "Not a directory (os error 20)"
  | isDirectory => "Is a directory (os error 21)"
  | tooLong => "File name too long (os error 36)"
  | nullCharacter => "file name contained an unexpected NUL byte"

end LoadError

end TypedScript
