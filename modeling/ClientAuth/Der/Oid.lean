import ClientAuth.Der.Element

/-!
# Object identifiers

An object identifier is a row of numbers, its arcs. `Oid.ofContent?` reads the content of an element, `Oid.ofArcs`
makes the identifier of given arcs, and two identifiers are the same when their contents are.
-/

namespace ClientAuth.Der

/-- An object identifier: the content that writes it, and its arcs. -/
structure Oid where
  content : Bytes
  arcs : List Nat
  deriving DecidableEq, Repr

namespace Oid

/-- The arcs behind the first two, in groups of seven bits; `value` and `used` are what has been read of the arc at
hand. An arc takes at most five octets, of which the fifth adds four bits, and counts modulo 2^32. -/
def arcsFrom (value used : Nat) : Bytes → Option (List Nat)
  | [] => if used = 0 then some [] else none
  | b :: rest =>
    if 4 ≤ used ∧ 16 ≤ b.toNat then none
    else
      let value := (value * 128 + b.toNat % 128) % 4294967296
      if b < 0x80 then (arcsFrom 0 0 rest).map (value :: ·)
      else arcsFrom value (used + 1) rest

/-- The identifier that a content writes: 3 to 39 octets, the first of which holds two arcs. -/
def ofContent? (content : Bytes) : Option Oid :=
  match content with
  | [] => none
  | b :: rest =>
    if 3 ≤ content.length ∧ content.length ≤ 39 ∧ b.toNat ≤ 119 then
      (arcsFrom 0 0 rest).map fun arcs => ⟨content, b.toNat / 40 :: b.toNat % 40 :: arcs⟩
    else none

/-- The identifier of an element. -/
def ofElement? (e : Element) : Option Oid :=
  if e.tag = Tag.oid then ofContent? e.content else none

/-- The octets of one arc below 2^28, in groups of seven bits of which all but the last carry a mark. -/
def arcOctets (n : Nat) : Bytes :=
  if n < 128 then [UInt8.ofNat n]
  else if n < 16384 then [UInt8.ofNat (128 + n / 128), UInt8.ofNat (n % 128)]
  else if n < 2097152 then
    [UInt8.ofNat (128 + n / 16384), UInt8.ofNat (128 + n / 128 % 128), UInt8.ofNat (n % 128)]
  else
    [UInt8.ofNat (128 + n / 2097152), UInt8.ofNat (128 + n / 16384 % 128), UInt8.ofNat (128 + n / 128 % 128),
      UInt8.ofNat (n % 128)]

/-- The identifier of two first arcs and the arcs behind them. -/
def ofArcs (first second : Nat) (rest : List Nat) : Oid :=
  ⟨UInt8.ofNat (first * 40 + second) :: rest.flatMap arcOctets, first :: second :: rest⟩

/-- The arcs in decimal, with dots between them. -/
def dotted (o : Oid) : String :=
  ".".intercalate (o.arcs.map toString)

end Oid

end ClientAuth.Der
