import NfsProvisioner.Json.Token

/-!
# JSON values

Values as JSON text describes them. Nothing that the text says is lost which a reader of wire forms
may ask about: members of an object keep their order, and a name may occur several times.

A value is written as one sequence of tokens (`Json.tokens`). Reading goes over the tokens once,
from left to right, and keeps the arrays and objects that are still open on a stack.
-/
namespace NfsProvisioner

inductive Json where
  | null
  | bool (b : Bool)
  | number (n : JsonNumber)
  /-- The text of a string, if it stands for one. -/
  | string (text : Option String)
  | array (items : List Json)
  | object (members : List (Option String × Json))

namespace Json

/-- A string value. -/
def text (s : String) : Json :=
  .string (some s)

def natural (n : Nat) : Json :=
  .number (.natural n)

/-- An object whose members have the given names. -/
def record (members : List (String × Json)) : Json :=
  .object (members.map fun (name, value) => (some name, value))

mutual

/-- How a value is written. -/
def tokens : Json → List Token
  | null => [.null]
  | bool b => [.bool b]
  | number n => [.number n]
  | string s => [.string s]
  | array [] => [.openArray, .closeArray]
  | array (item :: items) => .openArray :: tokens item ++ itemTokens items
  | object [] => [.openObject, .closeObject]
  | object ((name, value) :: members) =>
    .openObject :: .string name :: .colon :: tokens value ++ memberTokens members

/-- How the items of an array after the first are written, and its end. -/
def itemTokens : List Json → List Token
  | [] => [.closeArray]
  | item :: items => .comma :: tokens item ++ itemTokens items

/-- How the members of an object after the first are written, and its end. -/
def memberTokens : List (Option String × Json) → List Token
  | [] => [.closeObject]
  | (name, value) :: members =>
    .comma :: .string name :: .colon :: tokens value ++ memberTokens members

end

/-- A value as text. -/
def render (j : Json) : String :=
  String.ofList (j.tokens.flatMap Token.text)

/-- An array or object that is still open. What it holds so far stands last first. -/
inductive Frame where
  | array (items : List Json)
  /-- An object, and the name of the member that is being read. -/
  | object (members : List (Option String × Json)) (name : Option String)

/-- What may come next. -/
inductive Expecting where
  /-- A value. -/
  | value
  /-- A value, or the end of an array that is still empty. -/
  | firstItem
  /-- The name of a member of an object with the given members. -/
  | name (members : List (Option String × Json))
  /-- A name, or the end of an object that is still empty. -/
  | firstName
  /-- The colon after a name. -/
  | colon (members : List (Option String × Json)) (name : Option String)
  /-- What may follow a value. -/
  | after (value : Json)

/-- Reads a value from its tokens, given what may come next and what is still open. -/
def ofTokensFrom : Expecting → List Frame → List Token → Option Json
  | .after j, [], [] => some j
  | _, _, [] => none
  | expecting, stack, token :: rest =>
    match expecting, stack, token with
    | .firstItem, _ :: stack, .closeArray => ofTokensFrom (.after (.array [])) stack rest
    | .firstName, stack, .closeObject => ofTokensFrom (.after (.object [])) stack rest
    | .firstName, stack, .string s => ofTokensFrom (.colon [] s) stack rest
    | .name members, stack, .string s => ofTokensFrom (.colon members s) stack rest
    | .colon members name, stack, .colon =>
      ofTokensFrom .value (.object members name :: stack) rest
    | .after j, .array items :: stack, .comma =>
      ofTokensFrom .value (.array (j :: items) :: stack) rest
    | .after j, .array items :: stack, .closeArray =>
      ofTokensFrom (.after (.array (j :: items).reverse)) stack rest
    | .after j, .object members name :: stack, .comma =>
      ofTokensFrom (.name ((name, j) :: members)) stack rest
    | .after j, .object members name :: stack, .closeObject =>
      ofTokensFrom (.after (.object ((name, j) :: members).reverse)) stack rest
    | .value, stack, token | .firstItem, stack, token =>
      match token with
      | .null => ofTokensFrom (.after .null) stack rest
      | .bool b => ofTokensFrom (.after (.bool b)) stack rest
      | .number n => ofTokensFrom (.after (.number n)) stack rest
      | .string s => ofTokensFrom (.after (.string s)) stack rest
      | .openArray => ofTokensFrom .firstItem (.array [] :: stack) rest
      | .openObject => ofTokensFrom .firstName stack rest
      | _ => none
    | _, _, _ => none

/-- The value that tokens describe. -/
def ofTokens (tokens : List Token) : Option Json :=
  ofTokensFrom .value [] tokens

/-- The value that a text describes, if it is JSON. -/
def parse (text : String) : Option Json :=
  (Token.readAll text.toList).bind ofTokens

end Json
end NfsProvisioner
