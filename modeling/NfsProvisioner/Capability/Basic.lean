import Std.Data.ExtTreeSet

/-!
# Capabilities

How a volume may be used: by how many nodes and in which way (its access mode), and as a mounted
file system or as a block device (its access type). A capability comes from a caller, who may have
left either of them out.
-/
namespace NfsProvisioner

inductive AccessMode where
  | singleNodeWriter
  | singleNodeReaderOnly
  | multiNodeReaderOnly
  | multiNodeSingleWriter
  | multiNodeMultiWriter
deriving DecidableEq, Repr

namespace AccessMode

/-- All access modes, in their order. -/
def all : List AccessMode :=
  [singleNodeWriter, singleNodeReaderOnly, multiNodeReaderOnly, multiNodeSingleWriter,
    multiNodeMultiWriter]

/-- The place of a mode in the order. -/
def rank : AccessMode → Nat
  | singleNodeWriter => 0
  | singleNodeReaderOnly => 1
  | multiNodeReaderOnly => 2
  | multiNodeSingleWriter => 3
  | multiNodeMultiWriter => 4

instance : Ord AccessMode :=
  ⟨compareOn rank⟩

instance : Std.TransOrd AccessMode where
  eq_swap {a b} := by cases a <;> cases b <;> rfl
  isLE_trans {a b c} := by cases a <;> cases b <;> cases c <;> decide

instance : Std.LawfulEqOrd AccessMode where
  eq_of_compare {a b} := by cases a <;> cases b <;> decide

/-- The spelled-out name of a mode, as it stands in messages. -/
def displayName : AccessMode → String
  | singleNodeWriter => "SINGLE_NODE_WRITER"
  | singleNodeReaderOnly => "SINGLE_NODE_READER_ONLY"
  | multiNodeReaderOnly => "MULTI_NODE_READER_ONLY"
  | multiNodeSingleWriter => "MULTI_NODE_SINGLE_WRITER"
  | multiNodeMultiWriter => "MULTI_NODE_MULTI_WRITER"

end AccessMode

/-- A set of access modes. It lists each of its modes once, in their order. -/
abbrev AccessModes := Std.ExtTreeSet AccessMode

/-- Wishes about a mounted file system. They are carried along and not acted on. -/
structure MountAccess where
  fsType : String := ""
  mountFlags : List String := []
deriving DecidableEq, Repr

inductive AccessType where
  | mount (access : MountAccess)
  | block
deriving DecidableEq, Repr

structure VolumeCapability where
  accessMode : Option AccessMode := none
  accessType : Option AccessType := none
deriving DecidableEq, Repr

/-- The capability of being mounted with the given mode, without further wishes. -/
def VolumeCapability.mount (mode : AccessMode) : VolumeCapability :=
  ⟨some mode, some (.mount {})⟩

end NfsProvisioner
