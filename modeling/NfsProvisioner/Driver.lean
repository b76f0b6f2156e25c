import NfsProvisioner.Capability.Basic
import NfsProvisioner.Event

/-!
# The driver

What the driver says about itself, and which access modes it accepts.
-/
namespace NfsProvisioner

/-- An operation that a controller can announce. -/
inductive ControllerCapability where
  | unknown
  | createDeleteVolume
  | publishUnpublishVolume
  | listVolumes
  | getCapacity
  | createDeleteSnapshot
  | listSnapshots
  | expandVolume
deriving DecidableEq, Repr

def ControllerCapability.displayName : ControllerCapability → String
  | unknown => "UNKNOWN"
  | createDeleteVolume => "CREATE_DELETE_VOLUME"
  | publishUnpublishVolume => "PUBLISH_UNPUBLISH_VOLUME"
  | listVolumes => "LIST_VOLUMES"
  | getCapacity => "GET_CAPACITY"
  | createDeleteSnapshot => "CREATE_DELETE_SNAPSHOT"
  | listSnapshots => "LIST_SNAPSHOTS"
  | expandVolume => "EXPAND_VOLUME"

/-- A service that a plugin can offer. -/
inductive PluginCapability where
  | controllerService
deriving DecidableEq, Repr

structure PluginInfo where
  name : String
  vendorVersion : String
deriving DecidableEq, Repr

structure Driver where
  name : String := "nfs.csi.rk8s.io"
  vendorVersion : String := "0.1.0"
  /-- The access modes that a volume may be asked for with. -/
  accessModes : AccessModes := Std.ExtTreeSet.ofList AccessMode.all
  /-- The operations that the controller announces, in this order. -/
  controllerCapabilities : List ControllerCapability := [.createDeleteVolume]
deriving DecidableEq

namespace Driver

/-- The driver with the given access modes, whatever their order and however often they occur. -/
def withAccessModes (d : Driver) (modes : List AccessMode) : Driver :=
  { d with accessModes := Std.ExtTreeSet.ofList modes }

def withControllerCapabilities (d : Driver) (capabilities : List ControllerCapability) : Driver :=
  { d with controllerCapabilities := capabilities }

def supports (d : Driver) (mode : AccessMode) : Bool :=
  d.accessModes.contains mode

/-- What is logged when the driver starts: who it is, each access mode, each announced
operation. -/
def startEvents (d : Driver) : List Event :=
  ⟨.info, "driver configured", [("driver", d.name), ("version", d.vendorVersion)]⟩
    :: d.accessModes.toList.map
      (fun mode => ⟨.info, "enabling volume access mode", [("mode", mode.displayName)]⟩)
    ++ d.controllerCapabilities.map
      (fun capability =>
        ⟨.info, "enabling controller service capability", [("cap", capability.displayName)]⟩)

def info (d : Driver) : PluginInfo :=
  ⟨d.name, d.vendorVersion⟩

end Driver
end NfsProvisioner
