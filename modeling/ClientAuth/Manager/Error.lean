import ClientAuth.Certificate.Text
import ClientAuth.Enrollment
import ClientAuth.Vault.Error

/-!
# Failures of a manager

A manager fails for causes of its own and for those of the layers below it. `AuthError.chain` tells a failure with its
causes: a failure of a store is told by what was being done when it occurred.
-/

namespace ClientAuth

/-- Why an issued credential is not trusted. -/
inductive Rejection where
  /-- The certificate is for another key, or not valid now. -/
  | notValidForKey
  /-- The certificate names no client. -/
  | noClientId
  /-- The certificate names another client than expected. -/
  | otherClient
  /-- The service names another client than the certificate. -/
  | identityMismatch
  /-- The token is blank. -/
  | emptyToken
  deriving DecidableEq, Repr

/-- What is said about a credential that is not trusted. -/
def Rejection.message : Rejection → String
  | notValidForKey => "certificate is not valid for the enrolled public key at this time"
  | noClientId => "certificate does not carry a client id"
  | otherClient => "certificate was issued to another client"
  | identityMismatch => "server identity does not match the certificate"
  | emptyToken => "access token is empty"

/-- What was being done with a stored credential. -/
inductive VaultTask where
  | persisting
  | removing
  | restoring
  deriving DecidableEq, Repr

/-- What was being done, in words. -/
def VaultTask.message : VaultTask → String
  | persisting => "persisting the credential"
  | removing => "removing the persisted credential"
  | restoring => "restoring the persisted credential"

/-- A failure of a manager. -/
inductive AuthError where
  /-- The parameters of an enrollment cannot be used. -/
  | invalidArgument (problem : Enrollment.Problem)
  /-- The issued certificate cannot be read. -/
  | certificate (cause : Certificate.Error)
  /-- A response cannot be read. -/
  | io (cause : IoError)
  /-- The exchange failed. -/
  | transport (cause : Enrollment.TransportError)
  /-- The issued credential is not trusted. -/
  | rejected (reason : Rejection)
  /-- An exchange is in progress. -/
  | busy
  /-- The exchange was aborted, or its outcome is no longer wanted. -/
  | cancelled
  /-- A stored credential could not be worked with. -/
  | vault (task : VaultTask) (cause : VaultError)
  deriving DecidableEq, Repr

/-- A failure of a manager, as it is reported. -/
def AuthError.reported : AuthError → AuthReport
  | invalidArgument problem => .invalidArgument problem.message
  | certificate cause => .certificate cause.reported
  | io cause => .io cause.chain
  | transport cause => .transport cause.reported
  | rejected reason => .rejected reason.message
  | busy => .busy
  | cancelled => .cancelled
  | vault task cause => .storage ⟨task.message, cause.reported⟩

/-- What is said about a failure, and about its causes. -/
def AuthError.chain (e : AuthError) : CauseChain := e.reported.chain

end ClientAuth
