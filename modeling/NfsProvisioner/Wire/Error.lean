import NfsProvisioner.Error
import NfsProvisioner.Wire.Form

/-!
# Wire forms of errors
-/
namespace NfsProvisioner

/-- The name of an error's variant. -/
def Error.wireName : Error → String
  | invalidArgument _ => "InvalidArgument"
  | malformedIdentifier .. => "MalformedIdentifier"
  | volumeNotFound _ => "VolumeNotFound"
  | mountFailed .. => "MountFailed"
  | unmountFailed .. => "UnmountFailed"
  | unimplemented _ => "Unimplemented"
  | internal _ => "Internal"

def StatusCode.wireName : StatusCode → String
  | invalidArgument => "InvalidArgument"
  | notFound => "NotFound"
  | internal => "Internal"
  | unimplemented => "Unimplemented"

namespace Wire

def statusCode : Form StatusCode :=
  .choice [.invalidArgument, .notFound, .internal, .unimplemented] StatusCode.wireName

def malformedIdentifierFields : Fields (String × String × Unit) :=
  .cons ⟨"id", .text, none⟩ (.cons ⟨"reason", .text, none⟩ .none)

/-- A path, and why something failed there. -/
def failureFields : Fields (String × String × Unit) :=
  .cons ⟨"path", .text, none⟩ (.cons ⟨"reason", .text, none⟩ .none)

/-- What an error carries. -/
def errorPayload : Error → Json
  | .invalidArgument text | .volumeNotFound text | .unimplemented text | .internal text =>
    .text text
  | .malformedIdentifier id reason => .record (malformedIdentifierFields.members (id, reason, ()))
  | .mountFailed path reason | .unmountFailed path reason =>
    .record (failureFields.members (path, reason, ()))

def error : Form Error where
  write e := .variant e.wireName (errorPayload e)
  read := Variant.read
    [.carrying "InvalidArgument" fun j => (Form.text.read j).map .invalidArgument,
      .carrying "MalformedIdentifier" fun j =>
        (malformedIdentifierFields.read j).map fun (id, reason, ()) =>
          .malformedIdentifier id reason,
      .carrying "VolumeNotFound" fun j => (Form.text.read j).map .volumeNotFound,
      .carrying "MountFailed" fun j =>
        (failureFields.read j).map fun (path, reason, ()) => .mountFailed path reason,
      .carrying "UnmountFailed" fun j =>
        (failureFields.read j).map fun (path, reason, ()) => .unmountFailed path reason,
      .carrying "Unimplemented" fun j => (Form.text.read j).map .unimplemented,
      .carrying "Internal" fun j => (Form.text.read j).map .internal]

end Wire
end NfsProvisioner
