import ClientAuth.Credential
import ClientAuth.Json.Error
import ClientAuth.Report
import ClientAuth.Text.Base64
import ClientAuth.Text.Blank

/-!
# The enrollment exchange

A client enrolls a public key: with a nonce of the service it makes a `Request` out of its `Params`, and the service
answers with a certificate and an access token, a `Response`. `Params.problem?` tells which parameters cannot be used.
-/

namespace ClientAuth.Enrollment

/-- A span of time: whole seconds, and the nanoseconds beyond them. -/
structure Span where
  secs : UInt64
  nanos : Fin 1000000000
  deriving DecidableEq, Repr

/-- No time at all. -/
def Span.isZero (s : Span) : Bool := s.secs == 0 && s.nanos == 0

/-- The lifetime that is asked for unless another is given: ninety days. -/
def defaultExpiry : Span := ⟨7776000, 0⟩

/-- What a client enrolls with. -/
structure Params where
  /-- The key that the certificate must certify. -/
  publicKey : Bytes
  /-- The client identifier that the certificate must carry. -/
  clientId : Option String := none
  /-- The name to show. -/
  displayName : String := ""
  team : Option String := none
  /-- A signing request in DER form. -/
  csr : Option Bytes := none
  /-- How long the certificate is to last. -/
  expiry : Span := defaultExpiry
  deriving DecidableEq, Repr

/-- Why parameters cannot be used. -/
inductive Problem where
  | emptyKey
  | blankClientId
  | emptyCsr
  | zeroExpiry
  deriving DecidableEq, Repr

/-- What is said about parameters that cannot be used. -/
def Problem.message : Problem → String
  | emptyKey => "public key cannot be empty"
  | blankClientId => "expected client id cannot be empty"
  | emptyCsr => "csr cannot be empty"
  | zeroExpiry => "expiry cannot be zero"

/-- Why parameters cannot be used, if so; the first problem that applies counts. -/
def Params.problem? (p : Params) : Option Problem :=
  if p.publicKey.isEmpty then some .emptyKey
  else if p.clientId.any Text.isBlankText then some .blankClientId
  else if p.csr.any (·.isEmpty) then some .emptyCsr
  else if p.expiry.isZero then some .zeroExpiry
  else none

/-- What is sent to the service. -/
structure Request where
  /-- The nonce of the service. -/
  nonce : String
  /-- The key, as base64 that is safe in addresses. -/
  publicKey : String
  clientId : Option String
  displayName : String
  team : Option String
  /-- The signing request, as base64 that is safe in addresses. -/
  csr : Option String
  /-- The lifetime in whole seconds. -/
  expiry : UInt64
  deriving DecidableEq, Repr

/-- The request of parameters, bound to a nonce. -/
def Request.ofParams (nonce : String) (p : Params) : Request where
  nonce
  publicKey := Base64.encode Base64.urlSafe p.publicKey
  clientId := p.clientId
  displayName := p.displayName
  team := p.team
  csr := p.csr.map (Base64.encode Base64.urlSafe)
  expiry := p.expiry.secs

/-- What the service answers. -/
structure Response where
  /-- The certificate as text. -/
  certificate : String
  accessToken : String
  /-- The client as the service knows it. -/
  identity : Option Identity
  deriving DecidableEq, Repr

/-- A response without its token. -/
def Response.shown (r : Response) : String :=
  Text.record "EnrollmentResponse"
    [("certificate", Text.quoted r.certificate), ("access_token", Text.quoted "[REDACTED]"),
     ("identity", Text.optional (r.identity.map Identity.shown))]

/-- A failure of the exchange itself. -/
inductive TransportError where
  /-- The service cannot be reached. -/
  | io (cause : IoError)
  /-- The service answered with an unexpected status. -/
  | status (status : UInt16)
  /-- The exchange was given up. -/
  | cancelled
  /-- The answer is not what was expected. -/
  | malformed (cause : Json.Error)
  deriving DecidableEq, Repr

/-- A failure of the exchange, as it is reported. -/
def TransportError.reported : TransportError → TransportReport
  | io cause => .io cause.chain
  | status n => .status n
  | cancelled => .cancelled
  | malformed cause => .malformed (.root cause.wording)

/-- What is said about a failure, and about its causes. -/
def TransportError.chain (e : TransportError) : CauseChain := e.reported.chain

end ClientAuth.Enrollment
