import ClientAuth.Aes.Schedule

/-!
# AES in Galois/counter mode

The message is added to a stream of encrypted counters, and a tag over the result is appended. `Gcm.reveal?` checks the
tag before it gives the message, so that it accepts exactly what `Gcm.protect` makes with the same key and nonce.
-/

namespace ClientAuth.Aes.Gcm

/-- The number of octets in a nonce. -/
def nonceSize : Nat := 12

/-- The number of octets in a tag. -/
def tagSize : Nat := 16

/-- An element of the field of 2^128 elements; its first bit is the most significant one. -/
abbrev Element := BitVec 128

/-- The element that sixteen octets write; missing ones count as zero. -/
def elementOf (bs : Bytes) : Element :=
  BitVec.ofNat 128 ((bs ++ List.replicate (16 - bs.length) 0).foldl (fun n (b : UInt8) => n * 256 + b.toNat) 0)

/-- The sixteen octets of an element. -/
def octetsOf (e : Element) : Bytes :=
  (List.range 16).map fun i => UInt8.ofNat (e.toNat >>> (8 * (15 - i)))

/-- Half an element: the product with the field's generator. -/
def half (v : Element) : Element :=
  if v.getLsbD 0 then (v >>> 1) ^^^ 0xE1000000000000000000000000000000#128 else v >>> 1

/-- The sum of the halvings of `v` that the bits of `x`, from bit `n - 1` downwards, select. -/
def mulFrom (x : Element) : Nat → Element → Element → Element
  | 0, _, sum => sum
  | n + 1, v, sum => mulFrom x n (half v) (if x.getLsbD n then sum ^^^ v else sum)

/-- The product of two elements. -/
def mul (x y : Element) : Element := mulFrom x 128 y 0

/-- The hash of blocks under a key: to each block the hash so far is added, and the sum is multiplied by the key. -/
def hash (key : Element) (blocks : List Element) : Element :=
  blocks.foldl (fun h b => mul (h ^^^ b) key) 0

/-- Four octets of a counter. -/
def counterOctets (n : Nat) : Bytes :=
  [UInt8.ofNat (n / 16777216), UInt8.ofNat (n / 65536), UInt8.ofNat (n / 256), UInt8.ofNat n]

/-- The encrypted block of a nonce and a counter. -/
def streamBlock (k : Schedule) (nonce : Bytes) (n : Nat) : Bytes :=
  (encrypt k (.ofOctets (nonce ++ counterOctets n))).octets

/-- The stream that a message of that many octets is added to; the first counter is kept for the tag. -/
def stream (k : Schedule) (nonce : Bytes) (length : Nat) : Bytes :=
  ((List.range ((length + 15) / 16)).flatMap fun i => streamBlock k nonce (i + 2)).take length

/-- A message added to the stream. Doing it twice gives the message back. -/
def add (k : Schedule) (nonce message : Bytes) : Bytes :=
  xorBytes message (stream k nonce message.length)

/-- The tag of an encrypted message. -/
def tag (k : Schedule) (nonce encrypted : Bytes) : Bytes :=
  let key := elementOf (encrypt k (.ofOctets [])).octets
  let length := BitVec.ofNat 128 (8 * encrypted.length)
  xorBytes (octetsOf (hash key ((chunks 16 encrypted).map elementOf ++ [length]))) (streamBlock k nonce 1)

/-- Encrypts a message and appends its tag. -/
def protect (k : Schedule) (nonce message : Bytes) : Bytes :=
  let encrypted := add k nonce message
  encrypted ++ tag k nonce encrypted

/-- The message of an encrypted message with its tag, if the tag is right. -/
def reveal? (k : Schedule) (nonce sealed : Bytes) : Option Bytes :=
  if sealed.length < tagSize then none
  else
    let encrypted := sealed.take (sealed.length - tagSize)
    if sealed.drop (sealed.length - tagSize) = tag k nonce encrypted then some (add k nonce encrypted) else none

end ClientAuth.Aes.Gcm
