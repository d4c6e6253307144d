/-!
# Failures to read a file
-/

namespace FieldQuery

inductive FileError where
  | notFound
  /-- The path leads through a file. -/
  | notDirectory
  | isDirectory
  /-- A name on the path, or the path, is longer than names and paths may be. -/
  | nameTooLong
  | nullInName
  /-- The bytes are not UTF-8. -/
  | invalidText
  /-- Another failure, in the words of whoever reported it. -/
  | other (text : String)
deriving DecidableEq, Repr

def FileError.message : FileError → String
  | .notFound => "No such file or directory (os error 2)"
  | .notDirectory => "Not a directory (os error 20)"
  | .isDirectory => "Is a directory (os error 21)"
  | .nameTooLong => "File name too long (os error 36)"
  | .nullInName => "file name contained an unexpected NUL byte"
  | .invalidText => "stream did not contain valid UTF-8"
  | .other text => text

end FieldQuery
