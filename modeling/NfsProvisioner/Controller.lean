import NfsProvisioner.Capability.Validation
import NfsProvisioner.Dispatch
import NfsProvisioner.Settings
import NfsProvisioner.Volume.Parameters
import NfsProvisioner.Workflow.Attachment

/-!
# The controller

Answers requests by making and removing directories on exports. To work on a volume the controller
attaches the export that holds it below its working directory, at a mount point named after the
volume:

* `working/name` is the mount point, where the base directory of the export appears;
* `working/name/name` is the volume itself.

The controller remembers nothing between requests: everything follows from the request or from the
id of the volume.
-/
namespace NfsProvisioner

structure Controller where
  driver : Driver
  /-- The directory below which exports are attached. -/
  working : Path

namespace Controller

/-- The controller with the given settings, started in the directory `cwd`. Its working directory
is made absolute once and for all, since mounted file systems are listed by absolute paths. -/
def start (driver : Driver) (settings : Settings) (cwd : Location) : Controller :=
  ⟨driver, Path.absolute cwd settings.workingDirectory⟩

/-- Where the export that holds a volume is attached. -/
def mountPoint (c : Controller) (p : Placement) : Path :=
  c.working.child p.name

/-- Where a volume appears while its export is attached. -/
def volumePath (c : Controller) (p : Placement) : Path :=
  (c.mountPoint p).child p.name

/-- Does some work on the directory of a volume while its export is attached. -/
def onVolume {α : Type} (c : Controller) (p : Placement) (work : Path → Procedure α) :
    Procedure (Except Error α) :=
  .whileAttached (c.mountPoint p) p.server p.baseSharePath (work (c.volumePath p))

/-- The volume that a request asks for, or why it is refused. -/
def vet (c : Controller) (request : CreateVolumeRequest) : Except Error Placement := do
  if request.name = "" then throw (.invalidArgument "CreateVolume name must be provided")
  c.driver.validateCapabilities request.capabilities
  Placement.ofParameters request.name request.parameters.toList

/-- What is logged about a new volume. -/
def volumeCreated (p : Placement) : Event :=
  ⟨.info, "volume created", [("volume_id", p.id.text), ("share", p.display)]⟩

/-- What is logged about a volume that is gone. -/
def volumeDeleted (id : VolumeId) : Event :=
  ⟨.info, "volume deleted", [("volume_id", id.text)]⟩

/-- Makes the directory of a new volume. It must not exist yet. -/
def createVolume (c : Controller) (request : CreateVolumeRequest) :
    Procedure (Except Error Volume) :=
  match c.vet request with
  | .error e => return .error e
  | .ok p => do
    match ← c.onVolume p fun path => .makeDirectory path .done with
    | .error e => return .error e
    | .ok (.error fault) =>
      return .error (.internal
        ("failed to make subdirectory " ++ (c.volumePath p).text ++ ": " ++ fault.message))
    | .ok (.ok ()) =>
      .log (volumeCreated p)
      return .ok (p.toVolume request.requiredBytes)

/-- Removes the directory of a volume with everything in it. A volume that is not there counts as
removed, and so does an id that names no volume, since none can have been made with it. -/
def deleteVolume (c : Controller) (id : VolumeId) : Procedure (Except Error Unit) :=
  if id.isEmpty then return .error (.invalidArgument "volume id is empty")
  else match id.read with
    | .error _ => return .ok ()
    | .ok p => do
      match ← c.onVolume p fun path => .removeAll path .done with
      | .error e => return .error e
      | .ok (.ok ()) | .ok (.error .notFound) =>
        .log (volumeDeleted id)
        return .ok ()
      | .ok (.error fault) =>
        return .error (.internal
          ("failed to delete subdirectory " ++ (c.volumePath p).text ++ ": " ++ fault.message))

/-- Whether a volume can be used with the given capabilities. It is never answered with `false`:
what does not fit is an error that says why. -/
def validateVolumeCapabilities (c : Controller) (id : VolumeId)
    (capabilities : List (Option VolumeCapability)) : Except Error Bool :=
  match id.read with
  | .error _ => .error (.volumeNotFound id.text)
  | .ok _ => do
    c.driver.validateCapabilities capabilities
    return true

/-- What is logged when exports cannot be attached below the working directory. -/
def workingDirectoryUnusable (working : Path) (fault : Fault) : Event :=
  ⟨.warning, "working mount dir unusable", [("path", working.text), ("error", fault.message)]⟩

/-- Whether exports can be attached below the working directory, which is made if it is missing. -/
def probe (c : Controller) : Procedure Bool := do
  match ← .createDirectories c.working with
  | .ok () => return true
  | .error fault =>
    .log (workingDirectoryUnusable c.working fault)
    return false

/-- Answers a request. -/
def handle (c : Controller) : Handler Procedure
  | .createVolume request => c.createVolume request
  | .deleteVolume id => c.deleteVolume id
  | .validateVolumeCapabilities id capabilities =>
    return c.validateVolumeCapabilities id capabilities
  | .listVolumes => return .error (.unimplemented "ListVolumes")
  | .getCapacity => return .error (.unimplemented "GetCapacity")
  | .controllerGetCapabilities => return .ok c.driver.controllerCapabilities
  | .probe => .ok <$> c.probe
  | .getPluginInfo => return .ok c.driver.info
  | .getPluginCapabilities => return .ok [.controllerService]

/-- Responds to a message. -/
def respond (c : Controller) (message : Message) : Procedure Response :=
  dispatch c.handle .log message

end Controller
end NfsProvisioner
