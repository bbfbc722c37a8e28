import ClientAuth.Json.Error
import ClientAuth.Report
import ClientAuth.Text.Base64

/-!
# What can go wrong with protected entries

One type covers keys, ciphers, envelopes and stores. `VaultError.isEntryUnusable` parts failures of an entry itself from
failures to reach the store that holds it.
-/

namespace ClientAuth

/-- A failure to protect, store, read or reveal an entry. -/
inductive VaultError where
  /-- The authenticated cipher refuses the octets. -/
  | notAuthentic
  /-- Octets that are not a whole number of blocks. -/
  | ciphertextLength (length : Nat)
  /-- The last block is not padded. -/
  | padding
  /-- A key of the wrong size. -/
  | keySize (expected actual : Nat)
  /-- What was revealed is not text. -/
  | plaintextNotUtf8 (cause : Utf8.Error)
  /-- The envelope is not base64. -/
  | base64 (cause : Base64.Error)
  /-- What was revealed is not the document expected. -/
  | json (cause : Json.Error)
  /-- The store cannot be reached. -/
  | io (cause : IoError)
  /-- The store is not used as it should be. -/
  | misuse (what : String)
  deriving DecidableEq, Repr

namespace VaultError

/-- A failure with an entry, as it is reported. -/
def reported : VaultError → VaultReport
  | notAuthentic => .notAuthentic
  | ciphertextLength n => .ciphertextLength n
  | padding => .padding
  | keySize expected actual => .keySize expected actual
  | plaintextNotUtf8 cause => .plaintextNotUtf8 (.root cause.message)
  | base64 cause => .base64 (.root cause.message)
  | json cause => .json (.root cause.wording)
  | io cause => .io cause.chain
  | misuse what => .misuse what

/-- What is said about a failure, and about its causes. -/
def chain (e : VaultError) : CauseChain := e.reported.chain

/-- Whether the entry itself is at fault, so that no later attempt can succeed. -/
def isEntryUnusable : VaultError → Bool
  | notAuthentic | ciphertextLength _ | padding | keySize _ _ | plaintextNotUtf8 _ | base64 _ | json _ => true
  | io _ | misuse _ => false

end VaultError

end ClientAuth
