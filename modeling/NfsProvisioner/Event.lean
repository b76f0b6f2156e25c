/-!
# Log events

What the provisioner tells its operator while it works: a fixed message and named details.
-/
namespace NfsProvisioner

inductive Level where
  | info
  | warning
deriving DecidableEq, Repr

structure Event where
  level : Level
  message : String
  /-- Names and texts of the details. -/
  details : List (String × String)
deriving DecidableEq, Repr

end NfsProvisioner
