import NfsProvisioner.Message
import NfsProvisioner.Wire.Driver
import NfsProvisioner.Wire.Error
import NfsProvisioner.Wire.Volume

/-!
# Wire forms of messages

Requests and responses are variants of one choice, so that a message needs no mark for which of the
two it is.
-/
namespace NfsProvisioner.Wire

def validateFields : Fields (VolumeId × List (Option VolumeCapability) × Unit) :=
  .cons ⟨"volume_id", volumeId, none⟩ (.cons ⟨"capabilities", volumeCapabilities, none⟩ .none)

def writeRequest : Request → Json
  | .createVolume request => .variant "CreateVolume" (createVolumeRequest.write request)
  | .deleteVolume id => .variant "DeleteVolume" (volumeId.write id)
  | .validateVolumeCapabilities id capabilities =>
    .variant "ValidateVolumeCapabilities" (.record (validateFields.members (id, capabilities, ())))
  | .listVolumes => .text "ListVolumes"
  | .getCapacity => .text "GetCapacity"
  | .controllerGetCapabilities => .text "ControllerGetCapabilities"
  | .probe => .text "Probe"
  | .getPluginInfo => .text "GetPluginInfo"
  | .getPluginCapabilities => .text "GetPluginCapabilities"

def requestVariants : List (Variant Request) :=
  [.carrying "CreateVolume" fun j => (createVolumeRequest.read j).map .createVolume,
    .carrying "DeleteVolume" fun j => (volumeId.read j).map .deleteVolume,
    .carrying "ValidateVolumeCapabilities" fun j =>
      (validateFields.read j).map fun (id, capabilities, ()) =>
        .validateVolumeCapabilities id capabilities,
    .plain "ListVolumes" .listVolumes,
    .plain "GetCapacity" .getCapacity,
    .plain "ControllerGetCapabilities" .controllerGetCapabilities,
    .plain "Probe" .probe,
    .plain "GetPluginInfo" .getPluginInfo,
    .plain "GetPluginCapabilities" .getPluginCapabilities]

def writeResponse : Response → Json
  | .volumeCreated v => .variant "VolumeCreated" (volume.write v)
  | .volumeList volumes => .variant "VolumeList" ((Form.list volume).write volumes)
  | .capacity bytes => .variant "Capacity" (Form.word.write bytes)
  | .capabilitiesValid valid => .variant "CapabilitiesValid" (Form.bool.write valid)
  | .controllerCapabilities capabilities =>
    .variant "ControllerCapabilitiesResponse" ((Form.list controllerCapability).write capabilities)
  | .pluginInfo info => .variant "PluginInfoResponse" (pluginInfo.write info)
  | .pluginCapabilities capabilities =>
    .variant "PluginCapabilitiesResponse" ((Form.list pluginCapability).write capabilities)
  | .ok => .text "Ok"
  | .probeResult healthy => .variant "ProbeResult" (Form.bool.write healthy)
  | .error reason => .variant "Error" (error.write reason)

def responseVariants : List (Variant Response) :=
  [.carrying "VolumeCreated" fun j => (volume.read j).map .volumeCreated,
    .carrying "VolumeList" fun j => ((Form.list volume).read j).map .volumeList,
    .carrying "Capacity" fun j => (Form.word.read j).map .capacity,
    .carrying "CapabilitiesValid" fun j => (Form.bool.read j).map .capabilitiesValid,
    .carrying "ControllerCapabilitiesResponse" fun j =>
      ((Form.list controllerCapability).read j).map .controllerCapabilities,
    .carrying "PluginInfoResponse" fun j => (pluginInfo.read j).map .pluginInfo,
    .carrying "PluginCapabilitiesResponse" fun j =>
      ((Form.list pluginCapability).read j).map .pluginCapabilities,
    .plain "Ok" .ok,
    .carrying "ProbeResult" fun j => (Form.bool.read j).map .probeResult,
    .carrying "Error" fun j => (error.read j).map .error]

def message : Form Message where
  write
    | .request request => writeRequest request
    | .response response => writeResponse response
  read j :=
    ((Variant.read requestVariants j).map .request).or
      ((Variant.read responseVariants j).map .response)

end NfsProvisioner.Wire
