import NfsProvisioner.Controller
import NfsProvisioner.Mounter.Exports
import NfsProvisioner.Mounter.NfsClient
import NfsProvisioner.Wire.Message
import NfsProvisioner.Workflow.Dropping
import NfsProvisioner.Workflow.Interleaving
import NfsProvisioner.Proofs.Requests
import NfsProvisioner.Proofs.Receipts
import NfsProvisioner.Proofs.MountTable
import NfsProvisioner.Proofs.Entries
import NfsProvisioner.Proofs.Directories
import NfsProvisioner.Proofs.PlainNames
import NfsProvisioner.Proofs.Sites
import NfsProvisioner.Proofs.Upkeep
import NfsProvisioner.Proofs.Exposure
import NfsProvisioner.Proofs.VolumeWork
import NfsProvisioner.Proofs.Visit
import NfsProvisioner.Proofs.Isolation
import NfsProvisioner.Proofs.VolumeSet
import NfsProvisioner.Proofs.VolumeIds
import NfsProvisioner.Proofs.Confinement
import NfsProvisioner.Proofs.Actions
import NfsProvisioner.Proofs.Restoration
import NfsProvisioner.Proofs.Interference
import NfsProvisioner.Proofs.Locality
import NfsProvisioner.Proofs.Obstacles
import NfsProvisioner.Proofs.SharedWay
import NfsProvisioner.Proofs.Lockstep
import NfsProvisioner.Proofs.Concurrency
import NfsProvisioner.Proofs.ClientErrors
import NfsProvisioner.Proofs.Dropping
import NfsProvisioner.Proofs.Cancellation
import NfsProvisioner.Proofs.JsonText
import NfsProvisioner.Proofs.MemberOrder
import NfsProvisioner.Proofs.WireForms
import NfsProvisioner.Proofs.Remaking
import NfsProvisioner.Proofs.Repetition
import NfsProvisioner.Proofs.Reexposure
import NfsProvisioner.Proofs.Recognition
import NfsProvisioner.Proofs.Creation
import NfsProvisioner.Proofs.Deletion
import NfsProvisioner.Proofs.Absence
import NfsProvisioner.Proofs.Detachment
import NfsProvisioner.Proofs.Rollback
import NfsProvisioner.Proofs.ParameterReading
import NfsProvisioner.Proofs.CommandLine
import NfsProvisioner.Proofs.CapabilityChecks
import NfsProvisioner.Proofs.MountProgram
import NfsProvisioner.Proofs.MountOptions
import NfsProvisioner.Proofs.Dispatching
import NfsProvisioner.Proofs.Utf8Reading
import NfsProvisioner.Proofs.PathTexts
import NfsProvisioner.Proofs.HostMounting
import NfsProvisioner.Proofs.Probing
import NfsProvisioner.Proofs.JsonPieces
import NfsProvisioner.Proofs.NamedFields
import NfsProvisioner.Proofs.Positions
import NfsProvisioner.Proofs.AccessModeSets
import NfsProvisioner.Proofs.TableColumns
import NfsProvisioner.Proofs.Quotation
import NfsProvisioner.Proofs.WorkingDirectory
