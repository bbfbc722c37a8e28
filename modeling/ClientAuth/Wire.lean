import ClientAuth.Enrollment
import ClientAuth.Json.Record
import ClientAuth.Vault.Key

/-!
# How values are written in JSON

Each type that crosses a wire or is kept in a store has a codec here. Only optional members may be missing from an
object, except that an identity may lack any of its claims.
-/

namespace ClientAuth

open Json (Codec Record)

/-- One of the ways to select an identifier. -/
def UidSelection.codec : Codec UidSelection := .variant [("First", first), ("Last", last)] name

/-- One of the algorithms. -/
def Algorithm.codec : Codec Algorithm := .variant (all.map fun a => (a.label, a)) label

namespace Identity

/-- The members of an identity. A claim that is missing or null is empty. -/
def record : Record 3 (fun _ => String) where
  name := "Identity"
  members
    | 0 => { name := "id", codec := .textOrNull, inObject := some "", inArray := some "" }
    | 1 => { name := "authenticatedBy", codec := .textOrNull, inObject := some "", inArray := some "" }
    | 2 => { name := "displayName", codec := .textOrNull, inObject := some "", inArray := some "" }

/-- An identity. -/
def codec : Codec Identity :=
  record.codec (fun v => ⟨v 0, v 1, v 2⟩) fun i => fun
    | 0 => i.id
    | 1 => i.authenticatedBy
    | 2 => i.displayName

end Identity

namespace Credential

/-- The types of the members of a credential. -/
def MemberType : Fin 3 → Type
  | 0 => String
  | 1 => UInt64
  | 2 => Identity

/-- The members of a credential. -/
def record : Record 3 MemberType where
  name := "Credential"
  members
    | 0 => { name := "headerValue", codec := .text }
    | 1 => { name := "obtainedAt", codec := .word }
    | 2 => { name := "identity", codec := Identity.codec }

/-- A credential. -/
def codec : Codec Credential :=
  record.codec (fun v => ⟨v 0, v 1, v 2⟩) fun c => fun
    | 0 => c.headerValue
    | 1 => c.obtainedAt
    | 2 => c.identity

end Credential

namespace Enrollment

/-- The types of the members of a response. -/
def Response.MemberType : Fin 3 → Type
  | 0 => String
  | 1 => String
  | 2 => Option Identity

/-- The members of a response. -/
def Response.record : Record 3 Response.MemberType where
  name := "EnrollmentResponse"
  members
    | 0 => { name := "certificate", codec := .text }
    | 1 => { name := "accessToken", codec := .text }
    | 2 => { name := "identity", codec := Identity.codec.optional, inObject := some none, inArray := some none }

/-- A response. -/
def Response.codec : Codec Response :=
  record.codec (fun v => ⟨v 0, v 1, v 2⟩) fun r => fun
    | 0 => r.certificate
    | 1 => r.accessToken
    | 2 => r.identity

/-- Reads the answer of the service. -/
def Response.parse (document : Bytes) : Except TransportError Response :=
  (codec.parse document).mapError .malformed

/-- The types of the members of a request. -/
def Request.MemberType : Fin 7 → Type
  | 0 => String
  | 1 => String
  | 2 => Option String
  | 3 => String
  | 4 => Option String
  | 5 => Option String
  | 6 => UInt64

/-- The members of a request. Optional ones are left out when they are absent. -/
def Request.record : Record 7 Request.MemberType where
  name := "EnrollmentRequest"
  members
    | 0 => { name := "nonce", codec := .text }
    | 1 => { name := "publicKey", codec := .text }
    | 2 => { name := "clientId", codec := Codec.text.optional, inObject := some none, omitted := Option.isNone }
    | 3 => { name := "displayName", codec := .text }
    | 4 => { name := "team", codec := Codec.text.optional, inObject := some none, omitted := Option.isNone }
    | 5 => { name := "csr", codec := Codec.text.optional, inObject := some none, omitted := Option.isNone }
    | 6 => { name := "expiry", codec := .word }

/-- A request. -/
def Request.codec : Codec Request :=
  record.codec (fun v => ⟨v 0, v 1, v 2, v 3, v 4, v 5, v 6⟩) fun r => fun
    | 0 => r.nonce
    | 1 => r.publicKey
    | 2 => r.clientId
    | 3 => r.displayName
    | 4 => r.team
    | 5 => r.csr
    | 6 => r.expiry

end Enrollment

/-- How a cipher is configured. -/
structure CipherConfig where
  algorithm : Algorithm
  deriving DecidableEq, Repr

namespace CipherConfig

/-- The configuration that is used unless another is given. -/
def default : CipherConfig := ⟨.default⟩

/-- The configuration for entries in the older format. -/
def legacy : CipherConfig := ⟨.legacyAes128Ecb⟩

/-- The members of a cipher configuration. -/
def record : Record 1 (fun _ => Algorithm) where
  name := "CipherConfig"
  members _ := { name := "algorithm", codec := Algorithm.codec }

/-- A cipher configuration. -/
def codec : Codec CipherConfig := record.codec (fun v => ⟨v 0⟩) fun c => fun _ => c.algorithm

end CipherConfig

end ClientAuth
