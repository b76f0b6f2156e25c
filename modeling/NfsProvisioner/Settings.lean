import NfsProvisioner.Path
import NfsProvisioner.Text.Blank

/-!
# Settings of the controller

Where exports are attached for the time of a request, and with which mount options. Both can be
set in the environment.
-/
namespace NfsProvisioner

structure Settings where
  /-- The directory below which exports are attached. -/
  workingDirectory : String := "/tmp/nfs-csi/controller"
  mountOptions : List String := []
deriving DecidableEq, Repr

namespace Settings

/-- Names of the variables in the environment. -/
def workingDirectoryKey : String := "NFS_CSI_WORKING_MOUNT_DIR"

def mountOptionsKey : String := "NFS_CSI_MOUNT_OPTIONS"

/-- The options in a comma-separated text: the pieces without the blanks around them, those that
are all blank left out. -/
def optionsOf (text : String) : List String :=
  (((Text.split ',' text.toList).map Text.trim).filter fun piece => !piece.isEmpty).map
    String.ofList

/-- The settings in an environment. A variable that is not set leaves the default in place, and so
does an empty working directory. -/
def ofEnvironment (value? : String → Option String) : Settings where
  workingDirectory :=
    match value? workingDirectoryKey with
    | some directory => if directory = "" then ({} : Settings).workingDirectory else directory
    | none => ({} : Settings).workingDirectory
  mountOptions := ((value? mountOptionsKey).map optionsOf).getD []

/-- Whether two settings say the same: one working directory, however it is spelt, and the same
options. -/
def agree (a b : Settings) : Bool :=
  Path.sameSpelling a.workingDirectory b.workingDirectory && a.mountOptions == b.mountOptions

end Settings
end NfsProvisioner
