import ClientAuth.Json.Token
import ClientAuth.Text.Quoted
import ClientAuth.Wording

/-!
# What can be wrong with a JSON document

A document may not be JSON, may end too early, or may hold something else than was expected. Only the last has a wording
of its own: `Mismatch.message` names what was found and what was expected.
-/

namespace ClientAuth.Json

/-- What was found where something else was expected. -/
inductive Found where
  | null
  | boolean (b : Bool)
  | number (n : Number)
  | text (s : String)
  | sequence
  | map
  deriving DecidableEq, Repr

/-- What was found, in words. -/
def Found.describe : Found → String
  | null => "null"
  | boolean b => s!"boolean `{b}`"
  | number (.float isNegative x) => s!"floating point `{String.ofList (Number.float isNegative x).render}`"
  | number n => s!"integer `{String.ofList n.render}`"
  | text s => s!"string {Text.quoted s}"
  | sequence => "sequence"
  | map => "map"

/-- A difference between a document and what was expected of it. -/
inductive Mismatch where
  /-- An object lacks a member. -/
  | missingField (name : String)
  /-- An object has a member twice. -/
  | duplicateField (name : String)
  /-- An array in the place of an object ends too early. -/
  | invalidLength (length : Nat) (expected : String)
  /-- A value of another kind. -/
  | invalidType (found : Found) (expected : String)
  /-- A value of the right kind that is not allowed. -/
  | invalidValue (found : Found) (expected : String)
  /-- A name that is not one of those known. -/
  | unknownVariant (name : String) (known : List String)
  deriving DecidableEq, Repr

/-- The wording of a difference. -/
def Mismatch.message : Mismatch → String
  | missingField name => s!"missing field `{name}`"
  | duplicateField name => s!"duplicate field `{name}`"
  | invalidLength length expected => s!"invalid length {length}, expected {expected}"
  | invalidType found expected => s!"invalid type: {found.describe}, expected {expected}"
  | invalidValue found expected => s!"invalid value: {found.describe}, expected {expected}"
  | unknownVariant name known =>
    s!"unknown variant `{name}`, expected " ++ " or ".intercalate (known.map fun k => s!"`{k}`")

/-- Why a document cannot be read. -/
inductive Error where
  | flaw (f : Flaw)
  | mismatch (m : Mismatch)
  deriving DecidableEq, Repr

namespace Error

/-- The document is not JSON. -/
def malformed : Error := .flaw .malformed

/-- The document ends too early. -/
def truncated : Error := .flaw .truncated

/-- The wording of an error; flaws of form have none of their own. -/
def wording : Error → Wording
  | flaw _ => none
  | mismatch m => some m.message

end Error

end ClientAuth.Json
