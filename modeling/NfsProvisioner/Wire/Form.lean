import Std.Data.ExtTreeMap
import NfsProvisioner.Json.Value

/-!
# Wire forms

A form says how values of a type are written as JSON and which JSON is read as one. Reading is more
generous than writing, and these are its rules, for all forms alike:

* A record is an object or an array. In an object the order of members is free, members with unknown
  names are ignored, and a known one must not occur twice. An array holds the fields in their order
  and nothing more. A field may be left out if the form names a value for that case; from an array
  only the last fields can be left out.
* A choice between variants is the name of the variant, or an object whose one member has that name
  and holds what the variant carries; for a variant that carries nothing this is `null`.
* `null` is read only where a value is optional.
-/
namespace NfsProvisioner

structure Form (α : Type) where
  write : α → Json
  read : Json → Option α

namespace Form

variable {α β : Type}

/-- A value as text. -/
def encode (f : Form α) (a : α) : String :=
  (f.write a).render

/-- The value in a text. -/
def decode (f : Form α) (text : String) : Option α :=
  (Json.parse text).bind f.read

/-- The form of a type whose values stand for those of another one. -/
def map (f : Form α) (forth : α → β) (back : β → α) : Form β where
  write b := f.write (back b)
  read j := (f.read j).map forth

def text : Form String where
  write := Json.text
  read
    | .string s => s
    | _ => none

def bool : Form Bool where
  write := Json.bool
  read
    | .bool b => some b
    | _ => none

/-- A natural number that fits into 64 bits. -/
def word : Form UInt64 where
  write n := Json.natural n.toNat
  read
    | .number (.natural n) => if n < UInt64.size then some (UInt64.ofNat n) else none
    | _ => none

def list (f : Form α) : Form (List α) where
  write as := .array (as.map f.write)
  read
    | .array items => items.mapM f.read
    | _ => none

def option (f : Form α) : Form (Option α) where
  write
    | none => .null
    | some a => f.write a
  read
    | .null => some none
    | j => (f.read j).map some

/-- A member of an object that holds texts by name. -/
def readEntry : Option String × Json → Option (String × String)
  | (some name, .string (some value)) => some (name, value)
  | _ => none

/-- Texts by name. They are written in the order of their names, which is one of the orders that
they can be read in. If a name occurs several times, its last text counts. -/
def textMap : Form (Std.ExtTreeMap String String) where
  write m := Json.record (m.toList.map fun (name, value) => (name, Json.text value))
  read
    | .object members => (members.mapM readEntry).map fun entries => Std.ExtTreeMap.ofList entries
    | _ => none

end Form

/-- A field of a record. -/
structure Field (α : Type) where
  name : String
  form : Form α
  /-- The value of the field when it is left out, if that is allowed. -/
  absent : Option α := none

/-- The values in an object's members that have a given name. -/
def Json.named (name : String) (members : List (Option String × Json)) : List Json :=
  (members.filter (·.1 == some name)).map Prod.snd

namespace Field

variable {α : Type}

/-- Reads the field from the members of an object. -/
def ofMembers (f : Field α) (members : List (Option String × Json)) : Option α :=
  match Json.named f.name members with
  | [] => f.absent
  | [j] => f.form.read j
  | _ => none

end Field

/-- The fields of a record, in their order, and the type of their values together. -/
inductive Fields : Type → Type 1 where
  | none : Fields Unit
  | cons {α β : Type} (first : Field α) (rest : Fields β) : Fields (α × β)

namespace Fields

variable {α : Type}

/-- The members that write the fields. -/
def members {α : Type} : Fields α → α → List (String × Json)
  | .none, () => []
  | .cons f rest, (a, b) => (f.name, f.form.write a) :: members rest b

/-- Reads the fields from the items of an array. -/
def ofItems {α : Type} : Fields α → List Json → Option α
  | .none, [] => some ()
  | .none, _ :: _ => Option.none
  | .cons f rest, [] => do
    let a ← f.absent
    let b ← ofItems rest []
    return (a, b)
  | .cons f rest, j :: items => do
    let a ← f.form.read j
    let b ← ofItems rest items
    return (a, b)

/-- Reads the fields from the members of an object. -/
def ofMembers {α : Type} : Fields α → List (Option String × Json) → Option α
  | .none, _ => some ()
  | .cons f rest, members => do
    let a ← f.ofMembers members
    let b ← ofMembers rest members
    return (a, b)

/-- Reads the fields of a record. The name of a member has to stand for a text, also if it is
unknown. -/
def read (fields : Fields α) : Json → Option α
  | .array items => fields.ofItems items
  | .object members =>
    if members.all (·.1.isSome) then fields.ofMembers members else Option.none
  | _ => Option.none

end Fields

/-- The form of a record with the given fields. -/
def Form.record {α β : Type} (fields : Fields α) (make : α → β) (parts : β → α) : Form β where
  write b := Json.record (fields.members (parts b))
  read j := (fields.read j).map make

/-- A variant of a choice. -/
inductive Variant (α : Type) where
  /-- A variant that carries nothing. -/
  | plain (name : String) (value : α)
  /-- A variant that carries something, and how it is read from that. -/
  | carrying (name : String) (read : Json → Option α)

namespace Variant

variable {α : Type}

def name : Variant α → String
  | plain name _ => name
  | carrying name _ => name

/-- The value that a variant's bare name stands for. -/
def bare : Variant α → Option α
  | plain _ value => some value
  | carrying .. => none

/-- The value that a variant's name stands for together with what it carries. -/
def withPayload : Variant α → Json → Option α
  | plain _ value, .null => some value
  | plain .., _ => none
  | carrying _ read, payload => read payload

/-- Reads a choice between variants. -/
def read (variants : List (Variant α)) : Json → Option α
  | .string (some name) => (variants.find? (·.name == name)).bind bare
  | .object [(some name, payload)] =>
    (variants.find? (·.name == name)).bind (·.withPayload payload)
  | _ => none

end Variant

/-- Writes a variant that carries something. -/
def Json.variant (name : String) (payload : Json) : Json :=
  Json.record [(name, payload)]

/-- The form of a choice between variants that carry nothing. -/
def Form.choice {α : Type} (values : List α) (name : α → String) : Form α where
  write a := Json.text (name a)
  read := Variant.read (values.map fun a => .plain (name a) a)

end NfsProvisioner
