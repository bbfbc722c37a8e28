import ClientAuth.Manager.Task
import ClientAuth.Vault.Store

/-!
# The world around managers

A service that answers as it was told to, and a store that can be made to fail. Calls pass through gates: one behind a
closed gate waits. A call is performed by `World.perform`, which keeps a record of the calls made.
-/

namespace ClientAuth

open Enrollment (Request Response TransportError)

/-- The operations of a store that are made to fail, and how. -/
structure Faults where
  load : Option VaultError := none
  save : Option VaultError := none
  remove : Option VaultError := none
  deriving DecidableEq, Repr

/-- A store some of whose operations fail; those change nothing. -/
def Backing.failing {σ : Type} (b : Backing σ) (f : Faults) : Backing σ where
  load s key := match f.load with
    | some e => .error e
    | none => b.load s key
  save s key blob := match f.save with
    | some e => (.error e, s)
    | none => b.save s key blob
  remove s key := match f.remove with
    | some e => (.error e, s)
    | none => b.remove s key

namespace Backing

variable {σ : Type} {b : Backing σ} {f : Faults} {s : σ} {key : String}

/-- A load that succeeds was not made to fail. -/
theorem load_of_failing {entry : Option String} (h : (b.failing f).load s key = .ok entry) :
    b.load s key = .ok entry := by
  simp only [failing] at h
  split at h
  · cases h
  · exact h

/-- A save is that of the store, or one that was made to fail. -/
theorem failing_save_cases (b : Backing σ) (f : Faults) (s : σ) (key blob : String) :
    (b.failing f).save s key blob = b.save s key blob ∨ ∃ e, (b.failing f).save s key blob = (.error e, s) := by
  simp only [failing]
  split
  · exact .inr ⟨_, rfl⟩
  · exact .inl rfl

/-- A removal is that of the store, or one that was made to fail. -/
theorem failing_remove_cases (b : Backing σ) (f : Faults) (s : σ) (key : String) :
    (b.failing f).remove s key = b.remove s key ∨ ∃ e, (b.failing f).remove s key = (.error e, s) := by
  simp only [failing]
  split
  · exact .inr ⟨_, rfl⟩
  · exact .inl rfl

end Backing

/-- The gates that calls pass through. -/
inductive Gate where
  | nonce
  | enroll
  | load
  | save
  | remove
  deriving DecidableEq, Repr

namespace Call

/-- The gate that a call passes through. -/
def gate : Call → Gate
  | fetchNonce => .nonce
  | enroll _ => .enroll
  | load _ => .load
  | save _ _ => .save
  | remove _ => .remove

/-- The request that a call sends. -/
def request? : Call → Option Request
  | enroll request => some request
  | _ => none

/-- A call in the record. -/
def shown : Call → String
  | fetchNonce => "fetch_nonce"
  | enroll _ => "enroll"
  | load key => "load " ++ key
  | save key _ => "save " ++ key
  | remove key => "remove " ++ key

end Call

/-- A service and a store, as managers find them. -/
structure World (σ : Type) where
  /-- What the store offers, and the state that it is in. -/
  backing : Backing σ
  store : σ
  faults : Faults := {}
  /-- What the service says when it is asked for a nonce. -/
  nonceAnswer : Except TransportError String := .ok "n0nce"
  /-- What a request is answered with. -/
  enrollAnswer : Except TransportError Response := .error (.status 500)
  closed : List Gate := []
  /-- The calls made since the record was last taken. -/
  calls : List Call := []
  /-- The requests received since they were last taken. -/
  requests : List Request := []

namespace World

variable {σ : Type} (w : World σ)

/-- Whether a call has to wait. -/
def holds (c : Call) : Bool := w.closed.contains c.gate

/-- Closes a gate. -/
def close (g : Gate) : World σ := { w with closed := g :: w.closed }

/-- Opens a gate. -/
def reopen (g : Gate) : World σ := { w with closed := w.closed.filter (· != g) }

/-- Keeps a record of a call. -/
def record (c : Call) : World σ :=
  { w with calls := w.calls ++ [c], requests := w.requests ++ c.request?.toList }

/-- Takes the record of calls, which starts anew. -/
def takeCalls : List Call × World σ := (w.calls, { w with calls := [] })

/-- Takes the requests, which start anew. -/
def takeRequests : List Request × World σ := (w.requests, { w with requests := [] })

/-- The answer to a call, and the store after it. -/
def answer : (c : Call) → c.Answer × σ
  | .fetchNonce => (w.nonceAnswer, w.store)
  | .enroll _ => (w.enrollAnswer, w.store)
  | .load key => ((w.backing.failing w.faults).load w.store key, w.store)
  | .save key blob => (w.backing.failing w.faults).save w.store key blob
  | .remove key => (w.backing.failing w.faults).remove w.store key

/-- Performs a call with the answers and faults of the moment. -/
def perform (c : Call) : c.Answer × World σ :=
  let (a, store) := w.answer c
  (a, { w.record c with store })

end World

end ClientAuth
