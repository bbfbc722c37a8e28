import ClientAuth.Manager.Config
import ClientAuth.Manager.Error

/-!
# Accepting an enrollment

The answer of the service becomes a credential only if its certificate is valid for the enrolled key, names the client
that is expected and that the service names, and comes with a token.
-/

namespace ClientAuth

open Enrollment (Params Response)

/-- The identity that a certificate claims, once the service's own claim agrees with it. A service that names no client
claims nothing. Its display name is taken where the certificate has none. -/
def Identity.reconcile (certified : Identity) : Option Identity → Except Rejection Identity
  | none => .ok certified
  | some claimed =>
    if claimed.isAnonymous then .ok certified
    else if claimed.id ≠ certified.id then .error .identityMismatch
    else if certified.displayName.isEmpty then .ok { certified with displayName := claimed.displayName }
    else .ok certified

/-- The identity of a certificate for given parameters, if it can be trusted now. -/
def Certificate.identify (c : Certificate) (selection : UidSelection) (p : Params) (claimed : Option Identity)
    (now : Instant) : Except Rejection Identity :=
  let certified := Identity.ofCertificate c selection
  if ¬c.isValidAgainst p.publicKey now then .error .notValidForKey
  else if certified.isAnonymous then .error .noClientId
  else if p.clientId.any (· != certified.id) then .error .otherClient
  else certified.reconcile claimed

/-- The credential that the answer of the service makes. -/
def Config.accept (config : Config) (p : Params) (r : Response) (now : Instant) : Except AuthError Credential := do
  let c ← (Certificate.decode r.certificate).mapError .certificate
  let identity ← (c.identify config.uidSelection p r.identity now).mapError .rejected
  let token := Text.trim r.accessToken
  if token.isEmpty then throw (.rejected .emptyToken)
  return { headerValue := config.headerValue token, obtainedAt := now.sinceEpoch?.getD 0, identity }

end ClientAuth
