import ClientAuth.Aes.Gcm
import ClientAuth.Text.Blank
import ClientAuth.Vault.Key

/-!
# Ciphers

A cipher protects octets and reveals them again. The authenticated one draws a nonce for each message and puts it in
front; the legacy one pads the message and encrypts each block on its own. Envelopes are base64 text of protected octets,
which blanks may surround.
-/

namespace ClientAuth

/-- Where nonces come from: the row of all of them, and how many have been drawn. -/
structure Nonces where
  row : Nat → Bytes
  drawn : Nat

namespace Nonces

/-- The nonce that counts from one, in twelve octets. -/
def counted (k : Nat) : Bytes :=
  (List.range Aes.Gcm.nonceSize).map fun i => UInt8.ofNat ((k + 1) >>> (8 * (Aes.Gcm.nonceSize - 1 - i)))

/-- Given nonces first, then counted ones. -/
def ofList (first : List Bytes) : Nonces where
  row k := (first[k]?).getD (counted k)
  drawn := 0

/-- The nonce that is drawn next. -/
def next (n : Nonces) : Bytes := n.row n.drawn

/-- The supply after one draw. -/
def advance (n : Nonces) : Nonces := { n with drawn := n.drawn + 1 }

end Nonces

/-! Padding to whole blocks, each octet of which tells how many there are. -/
namespace Padding

/-- A message padded by one to sixteen octets. -/
def add (message : Bytes) : Bytes :=
  let n := Aes.blockSize - message.length % Aes.blockSize
  message ++ List.replicate n (UInt8.ofNat n)

/-- The message of a padded one. -/
def remove? (padded : Bytes) : Option Bytes :=
  let n := (padded.getLastD 0).toNat
  let kept := padded.length - n
  if 1 ≤ n ∧ n ≤ Aes.blockSize ∧ n ≤ padded.length ∧ (padded.drop kept).all (·.toNat == n) then
    some (padded.take kept)
  else none

end Padding

/-- A cipher: its algorithm, and the schedule of its key. -/
structure Cipher where
  algorithm : Algorithm
  schedule : Aes.Schedule
  deriving DecidableEq, Repr

namespace Cipher

/-- The cipher of a password. -/
def ofPassword (algorithm : Algorithm) (password : String) : Cipher :=
  ⟨algorithm, .ofKey (Key.derive algorithm password).octets⟩

/-- The cipher of a key, if the key has the size that the algorithm needs. -/
def ofKey (algorithm : Algorithm) (key : Key) : Except VaultError Cipher :=
  if key.octets.length = algorithm.keySize then .ok ⟨algorithm, .ofKey key.octets⟩
  else .error (.keySize algorithm.keySize key.octets.length)

/-- The same function on every block of octets. -/
def mapBlocks (f : Aes.Block → Aes.Block) (bs : Bytes) : Bytes :=
  (chunks Aes.blockSize bs).flatMap fun b => (f (.ofOctets b)).octets

/-- What a message becomes with a given nonce. The legacy algorithm takes no notice of the nonce. -/
def protectWith (c : Cipher) (nonce message : Bytes) : Bytes :=
  match c.algorithm with
  | .legacyAes128Ecb => mapBlocks (Aes.encrypt c.schedule) (Padding.add message)
  | .aes256Gcm => nonce ++ Aes.Gcm.protect c.schedule nonce message

/-- The supply after one message: only the authenticated algorithm draws. -/
def spend (c : Cipher) (n : Nonces) : Nonces :=
  match c.algorithm with
  | .legacyAes128Ecb => n
  | .aes256Gcm => n.advance

/-- Protects a message. -/
def protect (c : Cipher) (n : Nonces) (message : Bytes) : Bytes × Nonces :=
  (c.protectWith n.next message, c.spend n)

/-- Reveals what was protected. -/
def reveal (c : Cipher) (bs : Bytes) : Except VaultError Bytes :=
  match c.algorithm with
  | .legacyAes128Ecb =>
    if bs.isEmpty ∨ bs.length % Aes.blockSize ≠ 0 then .error (.ciphertextLength bs.length)
    else
      match Padding.remove? (mapBlocks (Aes.decrypt c.schedule) bs) with
      | some message => .ok message
      | none => .error .padding
  | .aes256Gcm =>
    if bs.length < Aes.Gcm.nonceSize then .error .notAuthentic
    else
      match Aes.Gcm.reveal? c.schedule (bs.take Aes.Gcm.nonceSize) (bs.drop Aes.Gcm.nonceSize) with
      | some message => .ok message
      | none => .error .notAuthentic

/-- Protects octets in an envelope. -/
def enclose (c : Cipher) (n : Nonces) (message : Bytes) : String × Nonces :=
  let (bs, n) := c.protect n message
  (Base64.encode Base64.standard bs, n)

/-- The octets in an envelope. -/
def disclose (c : Cipher) (envelope : String) : Except VaultError Bytes := do
  c.reveal (← (Base64.decode Base64.standard (Text.trim envelope)).mapError .base64)

/-- Protects a text in an envelope. -/
def encloseText (c : Cipher) (n : Nonces) (message : String) : String × Nonces :=
  c.enclose n (Utf8.encode message)

/-- The text in an envelope. -/
def discloseText (c : Cipher) (envelope : String) : Except VaultError String := do
  (Utf8.decode (← c.disclose envelope)).mapError .plaintextNotUtf8

/-- A cipher shown without its key. -/
def shown (c : Cipher) : String :=
  Text.record "CredentialCipher"
    [("config", Text.record "CipherConfig" [("algorithm", c.algorithm.shown)]), ("engine", Text.quoted "[REDACTED]")]

end Cipher

end ClientAuth
