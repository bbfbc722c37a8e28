import ClientAuth.Wording

/-!
# What the layers report

A failure comes up through layers. A layer reports a failure of its own in its own words; one of a layer below it either
hands on as it is, so that nothing is added to what is said, or puts its own words above it, so that the failure below
becomes the cause. This module holds what each layer can report, whatever the data are: a failure of another library is
known by its chain alone. `chain` tells a report with its causes.
-/

namespace ClientAuth

/-- An argument that cannot be used. -/
def CauseChain.invalidArgument (what : String) : CauseChain := .root s!"Invalid argument: {what}"

/-- No certificate can be read out of a text or out of octets. -/
inductive DecodeReport where
  /-- The text is not base64. -/
  | base64 (cause : CauseChain)
  /-- The text is not PEM, though it starts like it. -/
  | pem (cause : CauseChain)
  /-- The armour holds something else. -/
  | unexpectedTag (tag : String)
  /-- The octets are not a certificate. -/
  | der (cause : CauseChain)
  deriving DecidableEq, Repr

/-- What is said when no certificate can be read. -/
def DecodeReport.chain : DecodeReport → CauseChain
  | base64 cause | pem cause | der cause => cause
  | unexpectedTag tag => .root s!"Expected a CERTIFICATE PEM block, found '{tag}'"

/-- There is no certificate to be looked at. -/
inductive CertificateReport where
  /-- Nothing was given. -/
  | invalidArgument (what : String)
  /-- What was given cannot be read. -/
  | decode (cause : DecodeReport)
  deriving DecidableEq, Repr

/-- What is said when there is no certificate. -/
def CertificateReport.chain : CertificateReport → CauseChain
  | invalidArgument what => .invalidArgument what
  | decode cause => cause.chain

/-- The exchange with the service failed. -/
inductive TransportReport where
  /-- The service cannot be reached. -/
  | io (cause : CauseChain)
  /-- The service answered with an unexpected status. -/
  | status (status : UInt16)
  /-- The exchange was given up. -/
  | cancelled
  /-- The answer is not what was expected. -/
  | malformed (cause : CauseChain)
  deriving DecidableEq, Repr

/-- What is said when the exchange failed. -/
def TransportReport.chain : TransportReport → CauseChain
  | io cause => cause
  | status n => .root s!"Enrollment endpoint answered with status {n.toNat}"
  | cancelled => .root "The enrollment exchange was cancelled by the transport"
  | malformed cause => .under (cause.message.map ("Malformed enrollment response: " ++ ·)) cause

/-- An entry cannot be protected, stored, read or revealed. -/
inductive VaultReport where
  /-- The authenticated cipher refuses the octets. -/
  | notAuthentic
  /-- Octets that are not a whole number of blocks. -/
  | ciphertextLength (length : Nat)
  /-- The last block is not padded. -/
  | padding
  /-- A key of the wrong size. -/
  | keySize (expected actual : Nat)
  /-- What was revealed is not text. -/
  | plaintextNotUtf8 (cause : CauseChain)
  /-- The envelope is not base64. -/
  | base64 (cause : CauseChain)
  /-- What was revealed is not the document expected. -/
  | json (cause : CauseChain)
  /-- The store cannot be reached. -/
  | io (cause : CauseChain)
  /-- The store is not used as it should be. -/
  | misuse (what : String)
  deriving DecidableEq, Repr

/-- What is said about a failure with an entry. -/
def VaultReport.chain : VaultReport → CauseChain
  | notAuthentic => .root "aead::Error"
  | ciphertextLength n => .root s!"Ciphertext of {n} bytes is not a whole number of cipher blocks"
  | padding => .root "Ciphertext padding is invalid"
  | keySize expected actual => .root s!"Invalid key size, expected {expected}, got {actual}"
  | plaintextNotUtf8 cause => .under "Decrypted payload is not valid utf-8" cause
  | base64 cause | json cause | io cause => cause
  | misuse what => .root s!"Incorrect API usage: {what}"

/-- A stored credential could not be worked with: what was being done, and what went wrong. -/
structure StorageReport where
  context : String
  source : VaultReport
  deriving DecidableEq, Repr

/-- What is said is what was being done; what went wrong is the cause. -/
def StorageReport.chain (r : StorageReport) : CauseChain := .under r.context r.source.chain

/-- A manager failed. -/
inductive AuthReport where
  /-- The parameters of an enrollment cannot be used. -/
  | invalidArgument (what : String)
  /-- The issued certificate cannot be read. -/
  | certificate (cause : CertificateReport)
  /-- A response cannot be read. -/
  | io (cause : CauseChain)
  /-- The exchange failed. -/
  | transport (cause : TransportReport)
  /-- The issued credential is not trusted. -/
  | rejected (reason : String)
  /-- An exchange is in progress. -/
  | busy
  /-- The exchange was aborted, or its outcome is no longer wanted. -/
  | cancelled
  /-- A stored credential could not be worked with. -/
  | storage (cause : StorageReport)
  deriving DecidableEq, Repr

/-- What is said when a manager failed. -/
def AuthReport.chain : AuthReport → CauseChain
  | invalidArgument what => .invalidArgument what
  | certificate cause => cause.chain
  | io cause => cause
  | transport cause => cause.chain
  | rejected reason => .root s!"The issued credential failed validation: {reason}"
  | busy => .root "An authorization exchange is already in progress"
  | cancelled => .root "The authorization exchange was cancelled"
  | storage cause => cause.chain

end ClientAuth
