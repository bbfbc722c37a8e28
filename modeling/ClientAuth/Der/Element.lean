import ClientAuth.Bytes

/-!
# DER elements

Octets in distinguished encoding are a row of elements, each a tag, a length and a content. `Element.encode` writes one
and `elements?` reads a row; a length is accepted only in the one form in which it is written.
-/

namespace ClientAuth.Der

/-- The octets that may stand as a tag: the universal types in use, and one-octet tags of the other classes. -/
def isTag (t : UInt8) : Bool :=
  (0x01 ≤ t && t ≤ 0x06) || t == 0x09 || t == 0x0A || t == 0x0C || (0x12 ≤ t && t ≤ 0x18) || t == 0x1A ||
    t == 0x1E || t == 0x30 || t == 0x31 || (0x40 ≤ t && t % 32 != 31)

namespace Tag

def boolean : UInt8 := 0x01
def integer : UInt8 := 0x02
def bitString : UInt8 := 0x03
def octetString : UInt8 := 0x04
def oid : UInt8 := 0x06
def utcTime : UInt8 := 0x17
def generalizedTime : UInt8 := 0x18
def sequence : UInt8 := 0x30
def set : UInt8 := 0x31

/-- The tag of a primitive field of that number in its context. -/
def context (n : UInt8) : UInt8 := 0x80 + n

/-- The tag of a constructed field of that number in its context. -/
def contextConstructed (n : UInt8) : UInt8 := 0xA0 + n

end Tag

/-- A tag with its content. -/
structure Element where
  tag : UInt8
  content : Bytes
  deriving DecidableEq, Repr

/-- The number that octets write, the most significant first. -/
def bigEndian (bs : Bytes) : Nat :=
  bs.foldl (fun n b => n * 256 + b.toNat) 0

/-- The octets of a number below 2^32, the most significant first and none of them idle. -/
def octetsOf (n : Nat) : Bytes :=
  if n < 256 then [UInt8.ofNat n]
  else if n < 65536 then [UInt8.ofNat (n / 256), UInt8.ofNat (n % 256)]
  else if n < 16777216 then [UInt8.ofNat (n / 65536), UInt8.ofNat (n / 256 % 256), UInt8.ofNat (n % 256)]
  else [UInt8.ofNat (n / 16777216), UInt8.ofNat (n / 65536 % 256), UInt8.ofNat (n / 256 % 256), UInt8.ofNat (n % 256)]

/-- The greatest length of a content. -/
def maxLength : Nat := 0x0FFFFFFF

/-- A length: one octet below 128, else the count of its octets and these. -/
def encodeLength (n : Nat) : Bytes :=
  if n < 128 then [UInt8.ofNat n]
  else UInt8.ofNat (128 + (octetsOf n).length) :: octetsOf n

/-- The length that octets start with, and how many octets it takes. -/
def length? : Bytes → Option (Nat × Nat)
  | [] => none
  | b :: rest =>
    if b < 0x80 then some (b.toNat, 1)
    else
      let octets := rest.take (b.toNat - 128)
      let n := bigEndian octets
      if 1 ≤ octets.length ∧ octets.length ≤ 4 ∧ n ≤ maxLength ∧ encodeLength n = b :: octets then
        some (n, octets.length + 1)
      else none

/-- The octets of an element. -/
def Element.encode (e : Element) : Bytes :=
  e.tag :: (encodeLength e.content.length ++ e.content)

/-- The elements that octets are a row of. -/
def elements? : Bytes → Option (List Element)
  | [] => some []
  | tag :: rest =>
    if isTag tag then
      match length? rest with
      | none => none
      | some (size, used) =>
        if used + size ≤ rest.length then
          (elements? (rest.drop (used + size))).map (⟨tag, (rest.drop used).take size⟩ :: ·)
        else none
    else none
  termination_by bs => bs.length
  decreasing_by simp only [List.length_drop, List.length_cons]; omega

/-- The elements within an element of a tag. -/
def Element.children? (e : Element) (tag : UInt8) : Option (List Element) :=
  if e.tag = tag then elements? e.content else none

/-- Whether an element is a field of its context, with a number that passes a test. -/
def Element.isContext (e : Element) (number : UInt8 → Bool) : Bool :=
  e.tag / 64 == 2 && number (e.tag % 32)

/-- Looks for the optional field of a number at the front of a row: fields of lower numbers are skipped unread, and the
field itself, if it is there, must be well-formed. Gives the row behind it. -/
def skipOptional (number : UInt8) (wellFormed : Element → Bool) (row : List Element) : Option (List Element) :=
  match row.dropWhile (·.isContext (· < number)) with
  | [] => some []
  | e :: rest =>
    if e.isContext (· == number) then (if wellFormed e then some rest else none) else some (e :: rest)

/-- Whether octets are the content of an integer: at least one, and no idle leading one. -/
def isInteger : Bytes → Bool
  | [] => false
  | [_] => true
  | a :: b :: _ => !(a == 0 && b < 0x80) && !(a == 0xFF && 0x80 ≤ b)

/-- The bits of a bit string in whole octets: its content without the count of unused bits, which is below eight, and
nought where there are no bits. -/
def bits? : Bytes → Option Bytes
  | [] => none
  | unused :: octets => if unused ≤ 7 ∧ (octets = [] → unused = 0) then some octets else none

end ClientAuth.Der
