import NfsProvisioner.Text.Quoted

/-!
# Errors

Every way in which a request can fail, with the text that describes it and the coarse status that
callers act on.
-/
namespace NfsProvisioner

inductive Error where
  /-- The caller supplied something that cannot be acted on. -/
  | invalidArgument (reason : String)
  /-- A volume id does not name a server, a base directory and a volume. -/
  | malformedIdentifier (id reason : String)
  | volumeNotFound (id : String)
  /-- An export could not be attached at a path. -/
  | mountFailed (path reason : String)
  /-- An export could not be detached from a path. -/
  | unmountFailed (path reason : String)
  | unimplemented (operation : String)
  | internal (reason : String)
deriving DecidableEq, Repr

inductive StatusCode where
  | invalidArgument
  | notFound
  | internal
  | unimplemented
deriving DecidableEq, Repr

namespace Error

/-- The description of an error. A malformed id is quoted, since it can hold anything. -/
def message : Error → String
  | invalidArgument reason => "invalid argument: " ++ reason
  | malformedIdentifier id reason =>
    "volume id " ++ Text.quote id ++ " unexpected format: " ++ reason
  | volumeNotFound id => "volume " ++ id ++ " not found"
  | mountFailed path reason => "mount failed at " ++ path ++ ": " ++ reason
  | unmountFailed path reason => "unmount failed at " ++ path ++ ": " ++ reason
  | unimplemented operation => "unimplemented: " ++ operation
  | internal reason => "internal error: " ++ reason

/-- The status that goes with an error. -/
def code : Error → StatusCode
  | invalidArgument _ | malformedIdentifier .. => .invalidArgument
  | volumeNotFound _ => .notFound
  | mountFailed .. | unmountFailed .. | internal _ => .internal
  | unimplemented _ => .unimplemented

end Error
end NfsProvisioner
