import ClientAuth.Json.Codec

/-!
# JSON values of any kind

The members of an object are kept in the order of their names, and of members with one name the last counts. Values may
be nested 127 deep.
-/

namespace ClientAuth.Json

/-- A value of any kind. -/
inductive Value where
  | null
  | boolean (b : Bool)
  | number (n : Number)
  | text (s : String)
  | array (items : List Value)
  | object (members : List (String × Value))
  deriving Repr

namespace Value

/-- Puts a member into its place, instead of one of that name. -/
def insert (name : String) (v : Value) : List (String × Value) → List (String × Value)
  | [] => [(name, v)]
  | (k, w) :: rest =>
    if name < k then (name, v) :: (k, w) :: rest
    else if name = k then (name, v) :: rest
    else (k, w) :: insert name v rest

/-- The number of enclosing brackets at which reading stops. -/
def maxDepth : Nat := 128

mutual

/-- Reads a value; `depth` more brackets are too many. -/
def readWithin : (fuel depth : Nat) → Reader Value
  | 0, _, _ => .error .truncated
  | _, _, [] => .error .truncated
  | fuel + 1, depth, t :: ts =>
    match t with
    | .null => .ok (.null, ts)
    | .boolean b => .ok (.boolean b, ts)
    | .number (some n) => .ok (.number n, ts)
    | .text (some s) => .ok (.text s, ts)
    | .openBracket =>
      if depth ≤ 1 then .error .malformed
      else
        match ts with
        | .closeBracket :: rest => .ok (.array [], rest)
        | _ => do
          let (v, ts) ← readWithin fuel (depth - 1) ts
          let (vs, ts) ← itemsWithin fuel (depth - 1) ts
          return (.array (v :: vs), ts)
    | .openBrace =>
      if depth ≤ 1 then .error .malformed
      else
        match ts with
        | .closeBrace :: rest => .ok (.object [], rest)
        | _ => do
          let (name, ts) ← readName ts
          let ((), ts) ← expect .colon ts
          let (v, ts) ← readWithin fuel (depth - 1) ts
          let (members, ts) ← membersWithin fuel (depth - 1) (insert name v []) ts
          return (.object members, ts)
    | .badText f _ | .badOther f _ => .error (.flaw f)
    | _ => .error .malformed

/-- Reads the items behind the first one of an array, up to its end. -/
def itemsWithin : (fuel depth : Nat) → Reader (List Value)
  | 0, _, _ => .error .truncated
  | _, _, [] => .error .truncated
  | fuel + 1, depth, t :: ts =>
    match t with
    | .closeBracket => .ok ([], ts)
    | .comma => do
      if ts.head? = some .closeBracket then throw .malformed
      let (v, ts) ← readWithin fuel depth ts
      let (vs, ts) ← itemsWithin fuel depth ts
      return (v :: vs, ts)
    | _ => .error .malformed

/-- Reads the members behind the first one of an object, up to its end. -/
def membersWithin : (fuel depth : Nat) → List (String × Value) → Reader (List (String × Value))
  | 0, _, _, _ => .error .truncated
  | _, _, _, [] => .error .truncated
  | fuel + 1, depth, members, t :: ts =>
    match t with
    | .closeBrace => .ok (members, ts)
    | .comma => do
      let (name, ts) ← readName ts
      let ((), ts) ← expect .colon ts
      let (v, ts) ← readWithin fuel depth ts
      membersWithin fuel depth (insert name v members) ts
    | _ => .error .malformed

end

mutual

/-- Writes a value. -/
def write : Value → List Char
  | null => ['n', 'u', 'l', 'l']
  | boolean true => ['t', 'r', 'u', 'e']
  | boolean false => ['f', 'a', 'l', 's', 'e']
  | number n => n.render
  | text s => writeText s
  | array items => '[' :: commaSeparated (writeItems items) ++ [']']
  | object members => '{' :: commaSeparated (writeMembers members) ++ ['}']

/-- Writes items. -/
def writeItems : List Value → List (List Char)
  | [] => []
  | v :: rest => v.write :: writeItems rest

/-- Writes members with their names. -/
def writeMembers : List (String × Value) → List (List Char)
  | [] => []
  | (name, v) :: rest => (writeText name ++ ':' :: v.write) :: writeMembers rest

end

/-- A value of any kind. -/
def codec : Codec Value where
  read ts := readWithin (2 * ts.length + 1) maxDepth ts
  write := write

end Value

end ClientAuth.Json
