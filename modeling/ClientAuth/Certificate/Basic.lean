import ClientAuth.Certificate.Name
import ClientAuth.ClientId
import ClientAuth.Der.Time
import ClientAuth.Validity

/-!
# Certificates

`Certificate.ofDer?` reads the DER form of an X.509 certificate: names, window of validity and certified key are kept,
the rest is only checked for its form. Signatures are not verified.
-/

namespace ClientAuth

open Der (Element Oid elements? skipOptional)

/-- A certificate that was read, with the octets that it was read from. -/
structure Certificate where
  issuer : Name
  subject : Name
  validity : Validity
  publicKey : Bytes
  der : Bytes
  deriving DecidableEq, Repr

namespace Certificate

/-- An algorithm: its identifier, and at most one parameter of any form. -/
def isAlgorithm (e : Element) : Bool :=
  match e.children? Der.Tag.sequence with
  | some [id] | some [id, _] => (Oid.ofElement? id).isSome
  | _ => false

/-- A version in its field: 0, 1 or 2. -/
def isVersion (e : Element) : Bool :=
  match e.children? (Der.Tag.contextConstructed 0) with
  | some [v] => v.tag == Der.Tag.integer && (v.content == [0] || v.content == [1] || v.content == [2])
  | _ => false

/-- A serial number: an integer of at most 21 octets. -/
def isSerial (e : Element) : Bool :=
  e.tag == Der.Tag.integer && Der.isInteger e.content && e.content.length ≤ 21

/-- A bit string under a tag. -/
def isBits (tag : UInt8) (e : Element) : Bool :=
  e.tag == tag && (Der.bits? e.content).isSome

/-- An extension: its identifier, whether it is critical, and its octets. -/
def isExtension (e : Element) : Bool :=
  match e.children? Der.Tag.sequence with
  | some [id, value] => (Oid.ofElement? id).isSome && value.tag == Der.Tag.octetString
  | some [id, critical, value] =>
    (Oid.ofElement? id).isSome && critical.tag == Der.Tag.boolean &&
      (critical.content == [0] || critical.content == [0xFF]) && value.tag == Der.Tag.octetString
  | _ => false

/-- Extensions in their field. -/
def areExtensions (e : Element) : Bool :=
  match e.children? (Der.Tag.contextConstructed 3) with
  | some [list] =>
    match list.children? Der.Tag.sequence with
    | some extensions => extensions.all isExtension
    | none => false
  | _ => false

/-- Reads a window of validity. -/
def validity? (e : Element) : Option Validity := do
  match ← e.children? Der.Tag.sequence with
  | [start, stop] => return { notBefore := ← Der.seconds? start, notAfter := ← Der.seconds? stop }
  | _ => none

/-- Reads the octets of a certified key. -/
def publicKey? (e : Element) : Option Bytes := do
  match ← e.children? Der.Tag.sequence with
  | [algorithm, key] =>
    if isAlgorithm algorithm && key.tag == Der.Tag.bitString then Der.bits? key.content else none
  | _ => none

/-- Whether what follows the key is well-formed: two unique identifiers and extensions, each of them optional. -/
def isTrailer (row : List Element) : Bool :=
  let rest := (skipOptional 1 (isBits (Der.Tag.context 1)) row).bind fun row =>
    (skipOptional 2 (isBits (Der.Tag.context 2)) row).bind (skipOptional 3 areExtensions)
  rest == some []

/-- Reads the part of a certificate that is signed. -/
def ofSigned? (der : Bytes) (signed : Element) : Option Certificate := do
  match ← skipOptional 0 isVersion (← signed.children? Der.Tag.sequence) with
  | serial :: algorithm :: issuer :: validity :: subject :: key :: trailer =>
    if isSerial serial && isAlgorithm algorithm && isTrailer trailer then
      return {
        issuer := ← Name.ofElement? issuer
        subject := ← Name.ofElement? subject
        validity := ← validity? validity
        publicKey := ← publicKey? key
        der }
    else none
  | _ => none

/-- Reads a certificate; nothing may follow it. -/
def ofDer? (der : Bytes) : Option Certificate := do
  match ← elements? der with
  | [outer] =>
    match ← outer.children? Der.Tag.sequence with
    | [signed, algorithm, signature] =>
      if isAlgorithm algorithm && isBits Der.Tag.bitString signature then ofSigned? der signed else none
    | _ => none
  | _ => none

/-- The keys and values of the subject. -/
def subjectFields (c : Certificate) : List (String × String) := c.subject.fields

/-- The keys and values of the issuer. -/
def issuerFields (c : Certificate) : List (String × String) := c.issuer.fields

/-- The client identifier that the subject carries. -/
def clientId (c : Certificate) (selection : UidSelection) : String :=
  ClientId.ofSubject selection c.subject.render

/-- Whether a certificate is for that very key and valid at an instant. -/
def isValidAgainst (c : Certificate) (publicKey : Bytes) (now : Instant) : Bool :=
  match now.sinceEpoch? with
  | none => false
  | some s => c.validity.covers s && c.publicKey == publicKey

end Certificate

end ClientAuth
