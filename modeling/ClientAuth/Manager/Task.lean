import ClientAuth.Manager.Acceptance
import ClientAuth.Manager.Slot
import ClientAuth.Vault.Entry
import ClientAuth.Wire

/-!
# Tasks of a manager

Obtaining, clearing and restoring a credential are tasks that wait for calls on the service and on the store. A waiting
task is a `Stage`, which is plain data: `Stage.call` is the call it waits for, and `Stage.resume` runs it on with the
answer, up to its next call or its end. What happens between two calls happens at once, so an interleaving of tasks is a
row of calls, answers and resumptions.
-/

namespace ClientAuth

open Enrollment (Params Request Response TransportError)

/-- What stays the same about a manager. -/
structure Manager where
  config : Config
  detector : Challenge.Detector
  /-- The cipher that stored credentials are protected with; without one none is stored. -/
  cipher : Option Cipher
  deriving DecidableEq, Repr

/-- A call on the service or on the store. -/
inductive Call where
  | fetchNonce
  | enroll (request : Request)
  | load (key : String)
  | save (key blob : String)
  | remove (key : String)
  deriving DecidableEq, Repr

/-- What a call is answered with. -/
def Call.Answer : Call → Type
  | fetchNonce => Except TransportError String
  | enroll _ => Except TransportError Response
  | load _ => Except VaultError (Option String)
  | save _ _ => Except VaultError Unit
  | remove _ => Except VaultError Unit

/-- A begun exchange: its ticket, and what is enrolled. -/
structure Exchange where
  ticket : Nat
  params : Params
  deriving DecidableEq, Repr

/-- Where a task waits. -/
inductive Stage where
  /-- An exchange removes the credential that it replaces. -/
  | removingOld (x : Exchange)
  /-- An exchange asks for a nonce. -/
  | fetchingNonce (x : Exchange)
  /-- An exchange sends its request. -/
  | enrolling (x : Exchange) (request : Request)
  /-- An exchange saves the credential that was issued. -/
  | saving (x : Exchange) (credential : Credential) (blob : String)
  /-- A failed exchange removes what it may have saved. -/
  | cleaningUp (x : Exchange) (error : AuthError)
  /-- The credential was given up and its copy is being removed. -/
  | removing
  /-- The stored credential is being loaded; the slot had this generation then. -/
  | loading (generation : Nat)
  /-- A stored entry that cannot be used is being removed. -/
  | discarding (error : VaultError)
  deriving DecidableEq, Repr

/-- The call that a task waits for. -/
def Stage.call (m : Manager) : Stage → Call
  | removingOld _ | cleaningUp _ _ | removing | discarding _ => .remove m.config.storageKey
  | fetchingNonce _ => .fetchNonce
  | enrolling _ request => .enroll request
  | saving _ _ blob => .save m.config.storageKey blob
  | loading _ => .load m.config.storageKey

/-- The exchange that a waiting task belongs to. -/
def Stage.exchange? : Stage → Option Exchange
  | removingOld x | fetchingNonce x | enrolling x _ | saving x _ _ | cleaningUp x _ => some x
  | removing | loading _ | discarding _ => none

/-- What a task sees and changes while it runs: the slot of its manager, the supply of nonces, the time, and the log. -/
structure Scene where
  slot : Slot
  nonces : Nonces
  now : Instant
  log : List LogEvent

namespace Scene

/-- Adds an event to the log. -/
def record (s : Scene) (e : LogEvent) : Scene := { s with log := s.log ++ [e] }

/-- Adds that a removal failed, if so. -/
def recordRemoval (s : Scene) : Except VaultError Unit → Scene
  | .ok () => s
  | .error _ => s.record .removeFailed

end Scene

/-- What a task gives when it ends: a header value or nothing, or a failure. -/
abbrev Outcome := Except AuthError (Option String)

/-- Where a task stands after it has run: it waits, or it has ended. -/
inductive Progress where
  | waiting (stage : Stage)
  | finished (outcome : Outcome)

/-- A running task's progress, and what it leaves behind. -/
abbrev Run := Progress × Scene

namespace Exchange

/-- Starts an exchange: the parameters are checked, then the guard is taken. This happens when the exchange is asked
for; all else waits until its task runs. -/
def begin (p : Params) (slot : Slot) : Except AuthError Exchange × Slot :=
  match p.problem? with
  | some problem => (.error (.invalidArgument problem), slot)
  | none =>
    match slot.start? with
    | none => (.error .busy, slot)
    | some (ticket, slot) => (.ok ⟨ticket, p⟩, slot)

/-- Ends an exchange without a credential and releases its guard. The failure of an exchange whose outcome is no longer
wanted is told as a cancellation. -/
def fail (x : Exchange) (e : AuthError) (s : Scene) : Run :=
  let e := if s.slot.isCurrent x.ticket then e else .cancelled
  (.finished (.error e), { s with slot := s.slot.release x.ticket })

end Exchange

namespace Restoration

/-- A failure to bring the stored credential back. An entry that cannot be used is removed. -/
def fail (e : VaultError) (s : Scene) : Run :=
  if e.isEntryUnusable then (.waiting (.discarding e), s) else (.finished (.error (.vault .restoring e)), s)

/-- Brings a credential back that was loaded when the slot had a generation, unless that has changed. -/
def finish (generation : Nat) (c : Credential) (s : Scene) : Run :=
  if s.slot.generation ≠ generation ∨ s.slot.inFlight.isSome then (.finished (.error .cancelled), s)
  else
    let s := s.record (.restored c.identity)
    (.finished (.ok (some c.headerValue)), { s with slot := s.slot.fill c })

end Restoration

namespace Manager

variable (m : Manager)

/-- A failure within an exchange. The stored copy is removed before the exchange ends. -/
def giveUp (x : Exchange) (e : AuthError) (s : Scene) : Run :=
  let s := s.record .obtainFailed
  if m.cipher.isSome then (.waiting (.cleaningUp x e), s) else x.fail e s

/-- Fills the slot with an issued credential, unless it is no longer wanted. The slot is filled in one critical section of
the poll, and the guard released in a second one behind it; between polls only both are to be seen, so here they are one
change. -/
def cache (x : Exchange) (c : Credential) (s : Scene) : Run :=
  if s.slot.isCurrent x.ticket then
    let s := s.record (.obtained c)
    (.finished (.ok (some c.headerValue)), { s with slot := (s.slot.fill c).release x.ticket })
  else m.giveUp x .cancelled s

/-- Stores an issued credential, unless it is no longer wanted. -/
def keep (x : Exchange) (c : Credential) (s : Scene) : Run :=
  if s.slot.isCurrent x.ticket then
    match m.cipher with
    | none => m.cache x c s
    | some cipher =>
      let (blob, nonces) := cipher.encloseValue Credential.codec s.nonces c
      (.waiting (.saving x c blob), { s with nonces })
  else m.giveUp x .cancelled s

/-- Runs an exchange up to its first call. -/
def startExchange (x : Exchange) (s : Scene) : Run :=
  (.waiting (if m.cipher.isSome then .removingOld x else .fetchingNonce x), s)

/-- Gives the credential up, up to the first call. -/
def startClear (s : Scene) : Run :=
  let s := { s with slot := s.slot.clear }
  if m.cipher.isSome then (.waiting .removing, s) else (.finished (.ok none), s.record .cleared)

/-- Starts to bring the stored credential back. -/
def startRestore (s : Scene) : Run :=
  if m.cipher.isNone then (.finished (.ok none), s)
  else if s.slot.inFlight.isSome then (.finished (.error .busy), s)
  else (.waiting (.loading s.slot.generation), s)

/-- The stored credential that a load has found. -/
def revealed (entry : Option String) : Except VaultError (Option Credential) :=
  match entry, m.cipher with
  | some blob, some cipher => (cipher.discloseValue Credential.codec blob).map some
  | _, _ => .ok none

end Manager

/-- Runs a waiting task on with the answer to its call. -/
def Stage.resume (m : Manager) (stage : Stage) (answer : (stage.call m).Answer) (s : Scene) : Run :=
  match stage, answer with
  | .removingOld x, answer => (.waiting (.fetchingNonce x), s.recordRemoval answer)
  | .fetchingNonce x, answer =>
    match (answer : Except TransportError String) with
    | .ok nonce => (.waiting (.enrolling x (.ofParams nonce x.params)), s)
    | .error e => m.giveUp x (.transport e) s
  | .enrolling x _, answer =>
    match (answer : Except TransportError Response) with
    | .error e => m.giveUp x (.transport e) s
    | .ok response =>
      match m.config.accept x.params response s.now with
      | .ok c => m.keep x c s
      | .error e => m.giveUp x e s
  | .saving x c _, answer =>
    match (answer : Except VaultError Unit) with
    | .ok () => m.cache x c s
    | .error e => m.giveUp x (.vault .persisting e) s
  | .cleaningUp x e, answer => x.fail e (s.recordRemoval answer)
  | .removing, answer =>
    match (answer : Except VaultError Unit) with
    | .ok () => (.finished (.ok none), s.record .cleared)
    | .error e => (.finished (.error (.vault .removing e)), s)
  | .loading generation, answer =>
    match (answer : Except VaultError (Option String)) with
    | .error e => Restoration.fail e s
    | .ok entry =>
      match m.revealed entry with
      | .error e => Restoration.fail e s
      | .ok none => (.finished (.ok none), s)
      | .ok (some c) => Restoration.finish generation c s
  | .discarding e, answer => (.finished (.error (.vault .restoring e)), s.recordRemoval answer)

/-- A task: it was refused, it has yet to run, or it waits. -/
inductive Task where
  /-- An exchange that could not be started. -/
  | refused (e : AuthError)
  /-- An exchange that was started and has not run yet. -/
  | exchange (x : Exchange)
  | clear
  | restore
  | waiting (stage : Stage)
  deriving DecidableEq, Repr

namespace Task

/-- The ticket of the guard that a task holds. -/
def ticket? : Task → Option Nat
  | exchange x => some x.ticket
  | waiting stage => stage.exchange?.map (·.ticket)
  | refused _ | clear | restore => none

/-- Runs a task that does not wait up to its first call. -/
def start (m : Manager) (t : Task) (s : Scene) : Run :=
  match t with
  | refused e => (.finished (.error e), s)
  | exchange x => m.startExchange x s
  | clear => m.startClear s
  | restore => m.startRestore s
  | waiting stage => (.waiting stage, s)

/-- The slot after a task was dropped: its guard is released. -/
def drop (t : Task) (slot : Slot) : Slot :=
  match t.ticket? with
  | some ticket => slot.release ticket
  | none => slot

end Task

/-- A manager shown, with how its service and its store are shown. Secrets do not occur. -/
def Manager.shown (m : Manager) (service store : String) (slot : Slot) : String :=
  let vault := Text.record "EncryptedStore" [("store", store), ("cipher", Text.quoted "[REDACTED]")]
  Text.record "AuthorizationManager"
    [("config", m.config.shown), ("transport", service), ("detector", m.detector.shown),
     ("persistence", Text.optional (m.cipher.map fun _ => vault)), ("state", slot.state.shown)]

end ClientAuth
