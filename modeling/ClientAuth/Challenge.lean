import ClientAuth.Text.Blank
import ClientAuth.Wording

/-!
# Authorization challenges

A `Detector` decides from the status and the headers of a response whether it asks for authorization. The usual one
knows statuses that do and a header that does; either is enough, or both are needed when `requireHeader` is set.
`Detector.decideOn` reads them from a live response, whose status is read before its headers.
-/

namespace ClientAuth

/-- The values of the headers of a response, by the exact name under which each was delivered. -/
abbrev Headers := List (String × List String)

/-- The values delivered under a name. -/
def Headers.get? (h : Headers) (name : String) : Option (List String) :=
  h.lookup name

namespace Challenge

/-- The status of a response that was refused for lack of authorization. -/
def unauthorized : UInt16 := 401

/-- The header that carries a challenge. -/
def wwwAuthenticate : String := "WWW-Authenticate"

/-- What makes a response a challenge. -/
structure Rule where
  /-- Statuses that announce a challenge. -/
  statuses : List UInt16 := [unauthorized]
  /-- The header that carries a challenge; without one the status alone decides. -/
  header : Option String := some wwwAuthenticate
  /-- The scheme that the header must announce; without one any value will do. -/
  scheme : Option String := none
  /-- Whether the header is needed on top of the status. -/
  requireHeader : Bool := false
  deriving DecidableEq, Repr

/-- Equality of texts up to the case of the letters `A` to `Z`. -/
def sameIgnoringCase (a b : List Char) : Bool :=
  a.map Char.toLower == b.map Char.toLower

/-- Whether a header value announces a scheme: its first word is the scheme's name, in any case of letters. -/
def announces (scheme value : String) : Bool :=
  match Text.firstWord? value.toList with
  | some word => sameIgnoringCase word scheme.toList
  | none => false

namespace Rule

/-- Whether the values of the challenge header make a challenge. -/
def acceptsValues (r : Rule) (values : List String) : Bool :=
  match r.scheme with
  | none => !values.isEmpty
  | some scheme => values.any (announces scheme)

/-- Whether the headers carry a challenge. -/
def acceptsHeaders (r : Rule) (headers : Headers) : Bool :=
  match r.header with
  | none => false
  | some name =>
    match headers.get? name with
    | none => false
    | some values => r.acceptsValues values

/-- Whether a response is a challenge. -/
def decide (r : Rule) (status : UInt16) (headers : Headers) : Bool :=
  if r.requireHeader then r.statuses.contains status && r.acceptsHeaders headers
  else r.statuses.contains status || r.acceptsHeaders headers

end Rule

/-- How a client recognises challenges. -/
inductive Detector where
  /-- For services that do not challenge: no response is a challenge. -/
  | never
  /-- By status and header. -/
  | byRule (rule : Rule)
  deriving DecidableEq, Repr

/-- A response that is still being received, so that reading its status or its headers may fail. -/
structure LiveResponse where
  status : Except IoError UInt16
  headers : Except IoError Headers

namespace Detector

/-- Whether a response is a challenge. -/
def decide : Detector → UInt16 → Headers → Bool
  | never, _, _ => false
  | byRule r, status, headers => r.decide status headers

/-- Whether a live response is a challenge; its status is read first, and the first failure to read is the answer. -/
def decideOn (d : Detector) (r : LiveResponse) : Except IoError Bool :=
  match r.status with
  | .error e => .error e
  | .ok status =>
    match r.headers with
    | .error e => .error e
    | .ok headers => .ok (d.decide status headers)

end Detector

end Challenge

end ClientAuth
