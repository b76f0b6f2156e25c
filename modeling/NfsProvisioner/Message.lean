import NfsProvisioner.Driver
import NfsProvisioner.Volume.Basic

/-!
# Messages

What is said between a caller and the provisioner: nine requests, and the responses to them. Each
request has a type of answer of its own; a response carries an answer or an error.
-/
namespace NfsProvisioner

inductive Request where
  | createVolume (request : CreateVolumeRequest)
  | deleteVolume (id : VolumeId)
  | validateVolumeCapabilities (id : VolumeId) (capabilities : List (Option VolumeCapability))
  | listVolumes
  | getCapacity
  | controllerGetCapabilities
  | probe
  | getPluginInfo
  | getPluginCapabilities
deriving DecidableEq

/-- What a request is answered with when it succeeds. -/
@[reducible]
def Request.Answer : Request → Type
  | createVolume _ => Volume
  | deleteVolume _ => Unit
  | validateVolumeCapabilities .. => Bool
  | listVolumes => List Volume
  | getCapacity => UInt64
  | controllerGetCapabilities => List ControllerCapability
  | probe => Bool
  | getPluginInfo => PluginInfo
  | getPluginCapabilities => List PluginCapability

inductive Response where
  | volumeCreated (volume : Volume)
  | volumeList (volumes : List Volume)
  | capacity (bytes : UInt64)
  | capabilitiesValid (valid : Bool)
  | controllerCapabilities (capabilities : List ControllerCapability)
  | pluginInfo (info : PluginInfo)
  | pluginCapabilities (capabilities : List PluginCapability)
  /-- Success without a value. -/
  | ok
  | probeResult (healthy : Bool)
  | error (reason : Error)
deriving DecidableEq

inductive Message where
  | request (r : Request)
  | response (r : Response)
deriving DecidableEq

/-- The short form of a request, as it stands in the log. -/
def Request.display : Request → String
  | createVolume request => "CreateVolume(name=" ++ request.name ++ ")"
  | deleteVolume id => "DeleteVolume(" ++ id.text ++ ")"
  | validateVolumeCapabilities id _ => "ValidateVolumeCapabilities(" ++ id.text ++ ")"
  | listVolumes => "ListVolumes"
  | getCapacity => "GetCapacity"
  | controllerGetCapabilities => "ControllerGetCapabilities"
  | probe => "Probe"
  | getPluginInfo => "GetPluginInfo"
  | getPluginCapabilities => "GetPluginCapabilities"

/-- The short form of a response. Lists are shown by their length. -/
def Response.display : Response → String
  | volumeCreated volume => "VolumeCreated(" ++ volume.id.text ++ ")"
  | volumeList volumes => "VolumeList(count=" ++ toString volumes.length ++ ")"
  | capacity bytes => "Capacity(" ++ toString bytes.toNat ++ ")"
  | capabilitiesValid valid => "CapabilitiesValid(" ++ toString valid ++ ")"
  | controllerCapabilities capabilities =>
    "ControllerCapabilities(count=" ++ toString capabilities.length ++ ")"
  | pluginInfo info => "PluginInfo(name=" ++ info.name ++ ")"
  | pluginCapabilities capabilities =>
    "PluginCapabilities(count=" ++ toString capabilities.length ++ ")"
  | ok => "Ok"
  | probeResult healthy => "ProbeResult(" ++ toString healthy ++ ")"
  | error reason => "Error(" ++ reason.message ++ ")"

def Message.display : Message → String
  | request r => r.display
  | response r => r.display

/-- The response that carries the answer to a request. -/
def Request.respond : (request : Request) → Except Error request.Answer → Response
  | _, .error reason => .error reason
  | createVolume _, .ok volume => .volumeCreated volume
  | deleteVolume _, .ok () => .ok
  | validateVolumeCapabilities .., .ok valid => .capabilitiesValid valid
  | listVolumes, .ok volumes => .volumeList volumes
  | getCapacity, .ok bytes => .capacity bytes
  | controllerGetCapabilities, .ok capabilities => .controllerCapabilities capabilities
  | probe, .ok healthy => .probeResult healthy
  | getPluginInfo, .ok info => .pluginInfo info
  | getPluginCapabilities, .ok capabilities => .pluginCapabilities capabilities

end NfsProvisioner
