import ClientAuth.Identity
import ClientAuth.Sha256
import ClientAuth.Text.Quoted

/-!
# Credentials

A credential is the header value that authorizes requests, with the time it was obtained and the identity it was issued
to. Where it is shown, secrets are replaced by the start of their digest (`Obfuscated`).
-/

namespace ClientAuth

/-- What authorizes requests, and whom. -/
structure Credential where
  /-- The value of the authorization header. -/
  headerValue : String
  /-- When it was obtained, in seconds since the start of 1970. -/
  obtainedAt : UInt64
  /-- Whom it was issued to. -/
  identity : Identity
  deriving DecidableEq, Repr

namespace Obfuscated

/-- A text as the first ten octets of its digest. -/
def text (s : String) : String := Hex.encode ((Sha256.digest (Utf8.encode s)).take 10)

/-- An identity as that of its client identifier. -/
def identity (i : Identity) : String := Text.tuple "Identity" (text i.id)

end Obfuscated

/-- An identity with all its claims. -/
def Identity.shown (i : Identity) : String :=
  Text.record "Identity"
    [("id", Text.quoted i.id), ("authenticated_by", Text.quoted i.authenticatedBy),
     ("display_name", Text.quoted i.displayName)]

/-- A credential without its secrets. -/
def Credential.shown (c : Credential) : String :=
  Text.record "Credential"
    [("header_value", Obfuscated.text c.headerValue), ("obtained_at", toString c.obtainedAt.toNat),
     ("identity", Obfuscated.identity c.identity)]

end ClientAuth
