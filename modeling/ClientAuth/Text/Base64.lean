import ClientAuth.Text.Utf8

/-!
# Base64

Three octets are written as four symbols of six bits. `Base64.decode` reads exactly what `Base64.encode` writes: the
padding must be the canonical one of the form, and bits that the last symbol does not need must be zero. Its errors name
octet positions in the text.
-/

namespace ClientAuth.Base64

/-- A form of base64: its last two symbols, and whether the last group is filled up with `=`. -/
structure Form where
  symbol62 : UInt8
  symbol63 : UInt8
  padded : Bool

/-- The standard form, `+` and `/` with padding. -/
def standard : Form := ⟨43, 47, true⟩

/-- The form that is safe in addresses and file names, `-` and `_` without padding. -/
def urlSafe : Form := ⟨45, 95, false⟩

/-- The padding symbol, `=`. -/
def pad : UInt8 := 61

/-- The symbol of a number below 64: `A` to `Z`, `a` to `z`, `0` to `9`, then the form's own two. -/
def Form.symbol (f : Form) (v : Nat) : UInt8 :=
  if v < 26 then UInt8.ofNat (65 + v)
  else if v < 52 then UInt8.ofNat (71 + v)
  else if v < 62 then UInt8.ofNat (v - 4)
  else if v = 62 then f.symbol62
  else f.symbol63

/-- The number that a symbol stands for. -/
def Form.value? (f : Form) (b : UInt8) : Option Nat :=
  if 65 ≤ b ∧ b ≤ 90 then some (b.toNat - 65)
  else if 97 ≤ b ∧ b ≤ 122 then some (b.toNat - 71)
  else if 48 ≤ b ∧ b ≤ 57 then some (b.toNat + 4)
  else if b = f.symbol62 then some 62
  else if b = f.symbol63 then some 63
  else none

/-- The padding that a form puts after its last group. -/
def Form.padding (f : Form) (n : Nat) : Bytes :=
  if f.padded then List.replicate n pad else []

/-- The symbols that write octets. -/
def encodeBytes (f : Form) : Bytes → Bytes
  | [] => []
  | [a] => [f.symbol (a.toNat / 4), f.symbol (a.toNat % 4 * 16)] ++ f.padding 2
  | [a, b] =>
    [f.symbol (a.toNat / 4), f.symbol (a.toNat % 4 * 16 + b.toNat / 16), f.symbol (b.toNat % 16 * 4)] ++ f.padding 1
  | a :: b :: c :: rest =>
    f.symbol (a.toNat / 4) :: f.symbol (a.toNat % 4 * 16 + b.toNat / 16) ::
      f.symbol (b.toNat % 16 * 4 + c.toNat / 64) :: f.symbol (c.toNat % 64) :: encodeBytes f rest

/-- The text that writes octets. -/
def encode (f : Form) (bs : Bytes) : String :=
  String.ofList ((encodeBytes f bs).map fun b => Char.ofNat b.toNat)

/-- Why a text is not base64. -/
inductive Error where
  /-- A byte that may not stand at that offset. -/
  | invalidSymbol (symbol : UInt8) (offset : Nat)
  /-- A last group of fewer than two symbols. -/
  | invalidLength (length : Nat)
  /-- A last symbol with bits that no octet takes. -/
  | invalidLastSymbol (symbol : UInt8) (offset : Nat)
  /-- A last group that is not padded as the form asks. -/
  | invalidPadding
  deriving DecidableEq, Repr

/-- What is said about a text that is not base64. -/
def Error.message : Error → String
  | invalidSymbol symbol offset => s!"Invalid symbol {symbol.toNat}, offset {offset}."
  | invalidLength length => s!"Invalid input length: {length}"
  | invalidLastSymbol symbol offset => s!"Invalid last symbol {symbol.toNat}, offset {offset}."
  | invalidPadding => "Invalid padding"

/-- The number of the symbol at an offset. -/
def Form.read (f : Form) (offset : Nat) (b : UInt8) : Except Error Nat :=
  match f.value? b with
  | some v => .ok v
  | none => .error (.invalidSymbol b offset)

/-- The numbers of symbols that start at an offset. -/
def Form.readAll (f : Form) (offset : Nat) : Bytes → Except Error (List Nat)
  | [] => .ok []
  | b :: rest => do
    let v ← f.read offset b
    let vs ← f.readAll (offset + 1) rest
    return v :: vs

/-- Whether that many padding symbols complete a group that lacks `missing` symbols. -/
def Form.padsWell (f : Form) (pads missing : Nat) : Bool :=
  if f.padded then pads == missing else pads == 0

/-- The octets of the last group, which starts at `offset` and has one to four bytes: symbols, then padding. -/
def decodeLast (f : Form) (offset : Nat) (group : Bytes) : Except Error Bytes := do
  let symbols := group.takeWhile (· != pad)
  let pads := group.dropWhile (· != pad)
  let values ← f.readAll offset symbols
  if !pads.isEmpty && (symbols.length < 2 || pads.any (· != pad)) then
    throw (.invalidSymbol pad (offset + symbols.length))
  match values with
  | [a, b] =>
    if !f.padsWell pads.length 2 then throw .invalidPadding
    if b % 16 ≠ 0 then throw (.invalidLastSymbol (symbols.getLastD 0) (offset + 1))
    return [UInt8.ofNat (a * 4 + b / 16)]
  | [a, b, c] =>
    if !f.padsWell pads.length 1 then throw .invalidPadding
    if c % 4 ≠ 0 then throw (.invalidLastSymbol (symbols.getLastD 0) (offset + 2))
    return [UInt8.ofNat (a * 4 + b / 16), UInt8.ofNat (b % 16 * 16 + c / 4)]
  | [a, b, c, d] =>
    return [UInt8.ofNat (a * 4 + b / 16), UInt8.ofNat (b % 16 * 16 + c / 4), UInt8.ofNat (c % 4 * 64 + d)]
  | short => throw (.invalidLength (offset + short.length))

/-- The octets of groups that start at an offset, the last of them included. -/
def decodeGroups (f : Form) (offset : Nat) : Bytes → Except Error Bytes
  | [] => .ok []
  | s :: t :: u :: v :: w :: rest => do
    let a ← f.read offset s
    let b ← f.read (offset + 1) t
    let c ← f.read (offset + 2) u
    let d ← f.read (offset + 3) v
    let bs ← decodeGroups f (offset + 4) (w :: rest)
    return UInt8.ofNat (a * 4 + b / 16) :: UInt8.ofNat (b % 16 * 16 + c / 4) :: UInt8.ofNat (c % 4 * 64 + d) :: bs
  | group => decodeLast f offset group

/-- The octets that symbols write. A foreign byte left over after whole groups is reported first, before anything else
is read. -/
def decodeBytes (f : Form) (bs : Bytes) : Except Error Bytes :=
  let stray := bs.getLastD pad
  if bs.length % 4 = 1 ∧ stray ≠ pad ∧ (f.value? stray).isNone then
    .error (.invalidSymbol stray (bs.length - 1))
  else decodeGroups f 0 bs

/-- The octets that a text writes. -/
def decode (f : Form) (s : String) : Except Error Bytes :=
  decodeBytes f (Utf8.encode s)

end ClientAuth.Base64
