import ClientAuth.Certificate.Basic

/-!
# Identities

An identity says who a client is, who vouches for that, and which name to show. A certificate claims one; a server may
claim another. Claims that were not made are empty.
-/

namespace ClientAuth

/-- Who a client is; each claim may be empty. -/
structure Identity where
  /-- The client identifier. -/
  id : String
  /-- Who vouches for it. -/
  authenticatedBy : String
  /-- The name to show. -/
  displayName : String
  deriving DecidableEq, Repr

namespace Identity

/-- The identity without any claim. -/
def empty : Identity := ⟨"", "", ""⟩

/-- Whether an identity names no client. -/
def isAnonymous (i : Identity) : Bool := i.id.isEmpty

/-- The identity that a certificate claims: the identifier in its subject, vouched for by the issuer's common name, or
by the whole issuer where it has none. -/
def ofCertificate (c : Certificate) (selection : UidSelection) : Identity where
  id := c.clientId selection
  authenticatedBy := c.issuer.commonName?.getD c.issuer.render
  displayName := c.subject.commonName?.getD ""

end Identity

end ClientAuth
