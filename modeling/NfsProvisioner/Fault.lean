/-!
# Reasons why the file system refuses

What an operation on files can answer instead of doing its work, and how each reason reads in a
message.
-/
namespace NfsProvisioner

inductive Fault where
  | alreadyExists
  | notFound
  | notDirectory
  | isDirectory
  | notEmpty
  | busy
  | invalid
  | nameTooLong
  | tooManyLinks
  /-- The text of a path holds U+0000, so that it cannot be handed to the host. -/
  | nulInPath
deriving DecidableEq, Repr

/-- The reason as the host words it, with the number that it gives to it. -/
def Fault.message : Fault → String
  | .alreadyExists => "File exists (os error 17)"
  | .notFound => "No such file or directory (os error 2)"
  | .notDirectory => "Not a directory (os error 20)"
  | .isDirectory => "Is a directory (os error 21)"
  | .notEmpty => "Directory not empty (os error 39)"
  | .busy => "Device or resource busy (os error 16)"
  | .invalid => "Invalid argument (os error 22)"
  | .nameTooLong => "File name too long (os error 36)"
  | .tooManyLinks => "Too many levels of symbolic links (os error 40)"
  | .nulInPath => "file name contained an unexpected NUL byte"

end NfsProvisioner
