import ClientAuth.Json.Codec

/-!
# Records in JSON

A record has members of fixed names. It is read from an object, in which the members stand in any order among members of
other names, or from an array of the members in the order of the record; it is written as an object. What it means that
a member is missing is part of its description.
-/

namespace ClientAuth.Json

/-- A member of a record. -/
structure Member (α : Type) where
  name : String
  codec : Codec α
  /-- Its value in an object without it; without one it is required there. -/
  inObject : Option α := none
  /-- Its value in an array that ends before it; without one it is required there. -/
  inArray : Option α := none
  /-- Whether it is left out when written. -/
  omitted : α → Bool := fun _ => false

/-- The members of a record, in order. The value of member `i` has type `τ i`. -/
structure Record (n : Nat) (τ : Fin n → Type) where
  name : String
  members : (i : Fin n) → Member (τ i)

/-- The values of members that have been read. -/
abbrev Partial {n : Nat} (τ : Fin n → Type) := (i : Fin n) → Option (τ i)

namespace Partial

variable {n : Nat} {τ : Fin n → Type}

/-- No member has been read. -/
def nothing : Partial τ := fun _ => none

/-- One more member has been read. -/
def set (p : Partial τ) (i : Fin n) (a : τ i) : Partial τ :=
  fun j => if h : i = j then some (h ▸ a) else p j

/-- All values, if every member has one. -/
def all? (p : Partial τ) : Option ((i : Fin n) → τ i) :=
  if h : ∀ i, (p i).isSome then some fun i => (p i).get (h i) else none

end Partial

namespace Record

variable {n : Nat} {τ : Fin n → Type} (r : Record n τ)

/-- The record in words, as what is expected of a value. -/
def expected : String := s!"struct {r.name}"

/-- The record in words, as what is expected of an array. -/
def expectedLength : String :=
  let unit := if n = 1 then "element" else "elements"
  s!"struct {r.name} with {n} {unit}"

/-- The member of a name. -/
def find? (name : String) : Option (Fin n) := (List.finRange n).find? fun i => (r.members i).name == name

/-- Fills in the members that an object lacks; the first one that is required is the error. -/
def complete (p : Partial τ) : List (Fin n) → Except Error (Partial τ)
  | [] => .ok p
  | i :: rest =>
    match p i, (r.members i).inObject with
    | some _, _ => complete p rest
    | none, some a => complete (p.set i a) rest
    | none, none => .error (.mismatch (.missingField (r.members i).name))

/-- Reads one member of an object, with its name. -/
def readMember (p : Partial τ) (ts : List Token) : Except Error (Partial τ × List Token) := do
  let (name, ts) ← readName ts
  match r.find? name with
  | none =>
    let ((), ts) ← expect .colon ts
    let ts ← skipValue ts
    return (p, ts)
  | some i =>
    if (p i).isSome then throw (.mismatch (.duplicateField name))
    let ((), ts) ← expect .colon ts
    let (a, ts) ← (r.members i).codec.read ts
    return (p.set i a, ts)

/-- Reads the members behind the first one of an object, up to its end. -/
def readRest : (fuel : Nat) → Partial τ → List Token → Except Error (Partial τ × List Token)
  | 0, _, _ => .error .truncated
  | _, _, [] => .error .truncated
  | fuel + 1, p, t :: ts =>
    match t with
    | .closeBrace => .ok (p, ts)
    | .comma => do
      let (p, ts) ← r.readMember p ts
      readRest fuel p ts
    | _ => .error .malformed

/-- Reads the members of an object, up to its end. -/
def readObject (ts : List Token) : Except Error (Partial τ × List Token) :=
  match ts with
  | .closeBrace :: rest => .ok (.nothing, rest)
  | _ => do
    let (p, rest) ← r.readMember .nothing ts
    r.readRest (rest.length + 1) p rest

/-- Reads one element of an array, or takes the value that its absence stands for. -/
def readElement (i : Fin n) (ts : List Token) : Except Error (τ i × List Token) := do
  match ts with
  | [] => throw .truncated
  | .closeBracket :: _ =>
    match (r.members i).inArray with
    | some a => return (a, ts)
    | none => throw (.mismatch (.invalidLength i r.expectedLength))
  | _ =>
    if i.val = 0 then (r.members i).codec.read ts
    else
      let ((), rest) ← expect .comma ts
      if rest.head? = some .closeBracket then throw .malformed
      (r.members i).codec.read rest

/-- Reads elements of an array. -/
def readElements (p : Partial τ) (ts : List Token) : List (Fin n) → Except Error (Partial τ × List Token)
  | [] => .ok (p, ts)
  | i :: rest => do
    let (a, ts) ← r.readElement i ts
    readElements (p.set i a) ts rest

/-- Reads a record. -/
def read : Reader ((i : Fin n) → τ i)
  | [] => .error .truncated
  | .openBrace :: ts => do
    let (p, ts) ← r.readObject ts
    finish (← r.complete p (List.finRange n)) ts
  | .openBracket :: ts => do
    let (p, ts) ← r.readElements .nothing ts (List.finRange n)
    let ((), ts) ← expect .closeBracket ts
    finish p ts
  | t :: _ => .error (refuse r.expected t)
where
  /-- The values of a record of which every member has been read. -/
  finish (p : Partial τ) (ts : List Token) : Except Error (((i : Fin n) → τ i) × List Token) :=
    match p.all? with
    | some values => .ok (values, ts)
    | none => .error .truncated

/-- Writes one member with its name, unless it is left out. -/
def writeMember? (values : (i : Fin n) → τ i) (i : Fin n) : Option (List Char) :=
  let m := r.members i
  if m.omitted (values i) then none else some (writeText m.name ++ ':' :: m.codec.write (values i))

/-- Writes a record. -/
def write (values : (i : Fin n) → τ i) : List Char :=
  '{' :: commaSeparated ((List.finRange n).filterMap (r.writeMember? values)) ++ ['}']

/-- A record as a codec of what its members make up. -/
def codec {α : Type} (make : ((i : Fin n) → τ i) → α) (values : α → (i : Fin n) → τ i) : Codec α where
  read ts := (r.read ts).map fun (v, rest) => (make v, rest)
  write a := r.write (values a)

end Record

end ClientAuth.Json
