import ClientAuth.Credential
import ClientAuth.Vault.Key

/-!
# Log events

What is logged while credentials are obtained, restored, cleared and re-encrypted. An event names identities and header
values by their digests only.
-/

namespace ClientAuth

/-- Something worth a line in the log. -/
inductive LogEvent where
  /-- A credential was obtained. -/
  | obtained (credential : Credential)
  /-- A stored credential was brought back. -/
  | restored (identity : Identity)
  /-- The credential was given up. -/
  | cleared
  /-- An entry was protected anew. -/
  | rekeyed (key : String) (previous current : Algorithm)
  /-- No credential could be obtained. -/
  | obtainFailed
  /-- A stored credential could not be removed. -/
  | removeFailed
  deriving DecidableEq, Repr

namespace LogEvent

/-- How serious an event is. -/
def level : LogEvent → String
  | obtained _ | restored _ | cleared | rekeyed _ _ _ => "INFO"
  | obtainFailed | removeFailed => "WARN"

/-- What is said about an event. -/
def message : LogEvent → String
  | obtained _ => "Obtained authorization"
  | restored _ => "Restored persisted credential"
  | cleared => "Cleared authorization data"
  | rekeyed _ _ _ => "Rekeyed persisted entry"
  | obtainFailed => "Failed to obtain authorization"
  | removeFailed => "Failed to remove the persisted credential"

/-- What an event tells besides. -/
def fields : LogEvent → List (String × String)
  | obtained c => [("identity", Obfuscated.identity c.identity), ("header", Obfuscated.text c.headerValue)]
  | restored i => [("identity", Obfuscated.identity i)]
  | rekeyed key previous current => [("key", key), ("from", previous.name), ("to", current.name)]
  | cleared | obtainFailed | removeFailed => []

end LogEvent

end ClientAuth
