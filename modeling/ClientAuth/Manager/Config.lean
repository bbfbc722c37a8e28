import ClientAuth.Challenge
import ClientAuth.ClientId
import ClientAuth.Text.Quoted

/-!
# Configuration

How a manager writes header values, where it keeps credentials, and which identifier it goes by.
-/

namespace ClientAuth

/-- The key that credentials are kept under unless another is configured. -/
def defaultStorageKey : String := "authorization-credential"

/-- The configuration of a manager. -/
structure Config where
  /-- The scheme in front of the token in header values. -/
  headerScheme : String := "Bearer"
  /-- The key that the credential is kept under. -/
  storageKey : String := defaultStorageKey
  /-- Which of several identifiers counts. -/
  uidSelection : UidSelection := .default
  deriving DecidableEq, Repr

namespace Config

/-- The header value of a token: the scheme in front of it, unless that is empty. -/
def headerValue (c : Config) (token : String) : String :=
  if c.headerScheme.isEmpty then token else c.headerScheme ++ " " ++ token

/-- A configuration shown. -/
def shown (c : Config) : String :=
  Text.record "AuthorizationConfig"
    [("header_scheme", Text.quoted c.headerScheme), ("storage_key", Text.quoted c.storageKey),
     ("uid_selection", c.uidSelection.name)]

end Config

/-- A rule for challenges shown. -/
def Challenge.Rule.shown (r : Challenge.Rule) : String :=
  Text.record "StatusChallengeDetector"
    [("statuses", Text.row (r.statuses.map fun s => toString s.toNat)),
     ("challenge_header", Text.optional (r.header.map Text.quoted)),
     ("scheme", Text.optional (r.scheme.map Text.quoted)),
     ("require_header", toString r.requireHeader)]

/-- A detector shown. -/
def Challenge.Detector.shown : Challenge.Detector → String
  | never => "NoChallenge"
  | byRule r => r.shown

end ClientAuth
