import NfsProvisioner.Driver
import NfsProvisioner.Settings
import NfsProvisioner.Wire.Capability

/-!
# Wire forms of the driver and of the settings
-/
namespace NfsProvisioner

/-- All operations that a controller can announce. -/
def ControllerCapability.all : List ControllerCapability :=
  [unknown, createDeleteVolume, publishUnpublishVolume, listVolumes, getCapacity,
    createDeleteSnapshot, listSnapshots, expandVolume]

def ControllerCapability.wireName : ControllerCapability → String
  | unknown => "Unknown"
  | createDeleteVolume => "CreateDeleteVolume"
  | publishUnpublishVolume => "PublishUnpublishVolume"
  | listVolumes => "ListVolumes"
  | getCapacity => "GetCapacity"
  | createDeleteSnapshot => "CreateDeleteSnapshot"
  | listSnapshots => "ListSnapshots"
  | expandVolume => "ExpandVolume"

def PluginCapability.wireName : PluginCapability → String
  | controllerService => "ControllerService"

namespace Wire

def controllerCapability : Form ControllerCapability :=
  .choice ControllerCapability.all ControllerCapability.wireName

def pluginCapability : Form PluginCapability :=
  .choice [.controllerService] PluginCapability.wireName

def pluginInfoFields : Fields (String × String × Unit) :=
  .cons ⟨"name", .text, none⟩ (.cons ⟨"vendor_version", .text, none⟩ .none)

def pluginInfo : Form PluginInfo :=
  .record pluginInfoFields (fun (name, vendorVersion, ()) => ⟨name, vendorVersion⟩)
    fun i => (i.name, i.vendorVersion, ())

def driverFields :
    Fields (String × String × AccessModes × List ControllerCapability × Unit) :=
  .cons ⟨"name", .text, none⟩ (.cons ⟨"vendor_version", .text, none⟩
    (.cons ⟨"access_modes", accessModes, none⟩
      (.cons ⟨"controller_capabilities", .list controllerCapability, none⟩ .none)))

def driver : Form Driver :=
  .record driverFields
    (fun (name, vendorVersion, accessModes, controllerCapabilities, ()) =>
      ⟨name, vendorVersion, accessModes, controllerCapabilities⟩)
    fun d => (d.name, d.vendorVersion, d.accessModes, d.controllerCapabilities, ())

def settingsFields : Fields (String × List String × Unit) :=
  .cons ⟨"working_mount_dir", .text, none⟩ (.cons ⟨"mount_options", .list .text, some []⟩ .none)

def settings : Form Settings :=
  .record settingsFields
    (fun (workingDirectory, mountOptions, ()) => ⟨workingDirectory, mountOptions⟩)
    fun s => (s.workingDirectory, s.mountOptions, ())

end Wire
end NfsProvisioner
