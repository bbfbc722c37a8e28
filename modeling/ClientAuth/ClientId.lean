import ClientAuth.Text.Blank
import ClientAuth.Text.Pieces

/-!
# The client identifier in a subject text

A subject is written as attributes `KEY=VALUE` between commas. An attribute whose key mentions `UID` carries the client
identifier; when several do, a `UidSelection` tells which one counts.
-/

namespace ClientAuth

/-- Which of several identifiers in a subject counts. -/
inductive UidSelection where
  /-- The first in subject order. -/
  | first
  /-- The last in subject order, as older clients had it. -/
  | last
  deriving DecidableEq, Repr, Inhabited

namespace UidSelection

/-- The first identifier counts unless something else is configured. -/
def default : UidSelection := .first

/-- The name of a selection in configuration texts. -/
def name : UidSelection → String
  | first => "First"
  | last => "Last"

/-- The selected one of several candidates. -/
def choose {α : Type} : UidSelection → List α → Option α
  | first, l => l.head?
  | last, l => l.getLast?

end UidSelection

namespace ClientId

/-- The word that marks the key of an identifying attribute. -/
def marker : List Char := ['U', 'I', 'D']

/-- The identifier that one attribute carries: what follows the first `=`, if the key before it mentions the marker. -/
def ofAttribute? (piece : List Char) : Option (List Char) :=
  match Text.cutAt? '=' (Text.trimChars piece) with
  | some (key, value) => if Text.mentions marker key then some value else none
  | none => none

/-- The identifiers that the attributes of a subject carry, in subject order. -/
def candidates (subject : List Char) : List (List Char) :=
  (Text.pieces ',' subject).filterMap ofAttribute?

/-- The client identifier of a subject; empty when no attribute carries one. -/
def ofSubject (selection : UidSelection) (subject : String) : String :=
  String.ofList ((selection.choose (candidates subject.toList)).getD [])

end ClientId

end ClientAuth
