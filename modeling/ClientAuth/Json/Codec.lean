import ClientAuth.Json.Error

/-!
# Reading and writing JSON values

A `Reader` takes the tokens of one value off a row and gives the rest; the first problem that it meets is its error. A
`Codec` is a reader with the writer beside it. `skipValue` passes over a value of any kind and any depth.
-/

namespace ClientAuth.Json

/-- Reads one value off the front of a row of tokens. -/
abbrev Reader (α : Type) := List Token → Except Error (α × List Token)

/-- A reader, and the writer of what it reads. -/
structure Codec (α : Type) where
  read : Reader α
  write : α → List Char

/-- What a token is the start of, where another kind of value was expected. -/
def Token.found : Token → Except Error Found
  | .null => .ok .null
  | .boolean b => .ok (.boolean b)
  | .number (some n) => .ok (.number n)
  | .text (some s) => .ok (.text s)
  | .openBracket => .ok .sequence
  | .openBrace => .ok .map
  | .badText f _ | .badOther f _ => .error (.flaw f)
  | .number none | .text none | .closeBrace | .closeBracket | .comma | .colon => .error .malformed

/-- The error of a token where another kind of value was expected. -/
def refuse (expected : String) (t : Token) : Error :=
  match t.found with
  | .ok found => .mismatch (.invalidType found expected)
  | .error e => e

/-- Reads a text. -/
def readText (expected : String) : Reader String
  | [] => .error .truncated
  | .text (some s) :: rest => .ok (s, rest)
  | t :: _ => .error (refuse expected t)

/-- The name that stands next; only a text can be one. -/
def readName : Reader String
  | [] => .error .truncated
  | .text (some s) :: rest => .ok (s, rest)
  | .badText f _ :: _ => .error (.flaw f)
  | _ :: _ => .error .malformed

/-- Passes over one given token. -/
def expect (t : Token) : Reader Unit
  | [] => .error .truncated
  | u :: rest => if u = t then .ok ((), rest) else .error .malformed

/-- A bracket that a skipped value is within. -/
inductive Enclosure where
  | array
  | object
  deriving DecidableEq, Repr

/-- What may stand next in a skipped value. -/
inductive Due where
  /-- A value. -/
  | value
  /-- A value, or the end of the array that was just opened. -/
  | valueOrEnd
  /-- A member name. -/
  | key
  /-- A member name, or the end of the object that was just opened. -/
  | keyOrEnd
  /-- The colon behind a member name. -/
  | colon
  /-- A comma, or the end of what encloses the value just passed. -/
  | separator
  deriving DecidableEq, Repr

/-- Passes over the rest of a value within enclosures, the innermost first. -/
def skipFrom : Due → List Enclosure → List Token → Except Error (List Token)
  | _, _, [] => .error .truncated
  | due, within, t :: rest =>
    let passed (within : List Enclosure) : Except Error (List Token) :=
      if within.isEmpty then .ok rest else skipFrom .separator within rest
    match due with
    | .value | .valueOrEnd =>
      match t with
      | .null | .boolean _ | .number _ | .text _ => passed within
      | .openBracket => skipFrom .valueOrEnd (.array :: within) rest
      | .openBrace => skipFrom .keyOrEnd (.object :: within) rest
      | .closeBracket => if due = .valueOrEnd then passed within.tail else .error .malformed
      | .badText _ f | .badOther _ f => .error (.flaw f)
      | .closeBrace | .comma | .colon => .error .malformed
    | .key | .keyOrEnd =>
      match t with
      | .text _ => skipFrom .colon within rest
      | .closeBrace => if due = .keyOrEnd then passed within.tail else .error .malformed
      | .badText _ f => .error (.flaw f)
      | _ => .error .malformed
    | .colon => if t = .colon then skipFrom .value within rest else .error .malformed
    | .separator =>
      match within, t with
      | .array :: _, .comma => skipFrom .value within rest
      | .object :: _, .comma => skipFrom .key within rest
      | .array :: outer, .closeBracket => passed outer
      | .object :: outer, .closeBrace => passed outer
      | _, _ => .error .malformed

/-- Passes over one value. -/
def skipValue (ts : List Token) : Except Error (List Token) := skipFrom .value [] ts

/-- A character within a written text. -/
def escapeChar (c : Char) : List Char :=
  if c = '"' then ['\\', '"']
  else if c = '\\' then ['\\', '\\']
  else if c.toNat = 8 then ['\\', 'b']
  else if c.toNat = 9 then ['\\', 't']
  else if c.toNat = 10 then ['\\', 'n']
  else if c.toNat = 12 then ['\\', 'f']
  else if c.toNat = 13 then ['\\', 'r']
  else if c.toNat < 32 then ['\\', 'u', '0', '0', Hex.digit (c.toNat / 16), Hex.digit (c.toNat % 16)]
  else [c]

/-- Writes a text. -/
def writeText (s : String) : List Char :=
  '"' :: s.toList.flatMap escapeChar ++ ['"']

/-- Items with commas between them. -/
def commaSeparated : List (List Char) → List Char
  | [] => []
  | [item] => item
  | item :: items => item ++ ',' :: commaSeparated items

namespace Codec

/-- A text. -/
def text : Codec String := ⟨readText "a string", writeText⟩

/-- A whole number of 64 bits. -/
def word : Codec UInt64 where
  read
    | .number (some (.natural n)) :: rest => .ok (n, rest)
    | .number (some (.negative n)) :: _ => .error (.mismatch (.invalidValue (.number (.negative n)) "u64"))
    | [] => .error .truncated
    | t :: _ => .error (refuse "u64" t)
  write n := (toString n.toNat).toList

/-- A value that may be null. -/
def optional {α : Type} (c : Codec α) : Codec (Option α) where
  read
    | .null :: rest => .ok (none, rest)
    | ts => (c.read ts).map fun r => (some r.1, r.2)
  write
    | none => ['n', 'u', 'l', 'l']
    | some a => c.write a

/-- A text that may be null, which counts as the empty text. -/
def textOrNull : Codec String where
  read ts := (text.optional.read ts).map fun r => (r.1.getD "", r.2)
  write := text.write

/-- One of several names. It is read from a text, or from an object with the name as its one member, which is null. -/
def variant {α : Type} (known : List (String × α)) (nameOf : α → String) : Codec α where
  read
    | .openBrace :: rest => do
      let (name, rest) ← readName rest
      let a ← find name
      let ((), rest) ← expect .colon rest
      let rest ← match rest with
        | [] => .error .truncated
        | .null :: rest => .ok rest
        | t :: _ => .error (refuse "unit" t)
      let ((), rest) ← expect .closeBrace rest
      return (a, rest)
    | ts => do
      let (name, rest) ← readName ts
      return (← find name, rest)
  write a := writeText (nameOf a)
where
  /-- The value of a name. -/
  find (name : String) : Except Error α :=
    match known.lookup name with
    | some a => .ok a
    | none => .error (.mismatch (.unknownVariant name (known.map (·.1))))

/-- Reads a whole document: nothing may follow its value. -/
def parse {α : Type} (c : Codec α) (document : Bytes) : Except Error α :=
  match c.read (tokens document) with
  | .ok (a, []) => .ok a
  | .ok (_, _ :: _) => .error .malformed
  | .error e => .error e

/-- Writes a document. -/
def print {α : Type} (c : Codec α) (a : α) : String := String.ofList (c.write a)

end Codec

end ClientAuth.Json
