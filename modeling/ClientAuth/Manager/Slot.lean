import ClientAuth.Credential

/-!
# The credential slot

A manager has one slot for a credential. An exchange that fills it holds a guard, which is known by its ticket: the
generation that its start gave to the slot. Whatever makes the outcome of an exchange unwanted gives the slot another
generation, so an exchange whose ticket is no longer the generation may not write the slot.
-/

namespace ClientAuth

/-- Where a slot stands. -/
inductive SlotState where
  | noCredential
  /-- An exchange is in progress, and its outcome is wanted. -/
  | obtaining
  | cached
  deriving DecidableEq, Repr

/-- The name of a state where values are shown. -/
def SlotState.shown : SlotState → String
  | noCredential => "NoCredential"
  | obtaining => "Obtaining"
  | cached => "Cached"

/-- The slot of a manager. -/
structure Slot where
  /-- The credential in use. -/
  credential : Option Credential
  /-- The ticket of the exchange that holds the guard. -/
  inFlight : Option Nat
  /-- How many exchanges were started and how often the slot was cleared. -/
  generation : Nat
  deriving DecidableEq, Repr

namespace Slot

/-- The slot of a new manager. -/
def empty : Slot := ⟨none, none, 0⟩

/-- Where a slot stands. -/
def state (s : Slot) : SlotState :=
  if s.inFlight = some s.generation then .obtaining
  else if s.credential.isSome then .cached
  else .noCredential

/-- The header value to attach to requests. -/
def header (s : Slot) : Option String := s.credential.map (·.headerValue)

/-- Whom the credential was issued to. -/
def identity (s : Slot) : Option Identity := s.credential.map (·.identity)

/-- Starts an exchange and gives its ticket, unless one is in progress. The credential is given up. -/
def start? (s : Slot) : Option (Nat × Slot) :=
  if s.inFlight.isSome then none
  else some (s.generation + 1, ⟨none, some (s.generation + 1), s.generation + 1⟩)

/-- Gives the credential up, and makes any outcome that is still to come unwanted. -/
def clear (s : Slot) : Slot := { s with credential := none, generation := s.generation + 1 }

/-- Releases the guard of a ticket; another ticket's guard is left alone. -/
def release (s : Slot) (ticket : Nat) : Slot :=
  if s.inFlight = some ticket then { s with inFlight := none } else s

/-- Whether the outcome of a ticket's exchange is still wanted. -/
def isCurrent (s : Slot) (ticket : Nat) : Bool := s.generation == ticket

/-- Fills the slot. -/
def fill (s : Slot) (c : Credential) : Slot := { s with credential := some c }

end Slot

end ClientAuth
