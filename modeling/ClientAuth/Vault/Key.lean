import ClientAuth.Sha256
import ClientAuth.Text.Quoted
import ClientAuth.Vault.Error

/-!
# Algorithms and keys

Entries are protected by AES-256 in an authenticated mode; the older format, AES-128 block by block, is kept so that
entries in it stay readable. `Key.derive` makes the key that an algorithm needs out of a password, and `Key.ofOctets`
takes raw material of a usable size.
-/

namespace ClientAuth

/-- How entries are protected. -/
inductive Algorithm where
  /-- The older format: neither authenticated nor hiding repetitions. -/
  | legacyAes128Ecb
  /-- The format in use. -/
  | aes256Gcm
  deriving DecidableEq, Repr

namespace Algorithm

/-- The algorithm that is used unless another is configured. -/
def default : Algorithm := .aes256Gcm

/-- The size of its keys in octets. -/
def keySize : Algorithm → Nat
  | legacyAes128Ecb => 16
  | aes256Gcm => 32

/-- Its name in logs. -/
def name : Algorithm → String
  | legacyAes128Ecb => "aes128-ecb"
  | aes256Gcm => "aes256-gcm"

/-- Its name in documents. -/
def label : Algorithm → String
  | legacyAes128Ecb => "legacy_aes128_ecb"
  | aes256Gcm => "aes256_gcm"

/-- Its name where values are shown. -/
def shown : Algorithm → String
  | legacyAes128Ecb => "LegacyAes128Ecb"
  | aes256Gcm => "Aes256Gcm"

/-- All algorithms. -/
def all : List Algorithm := [legacyAes128Ecb, aes256Gcm]

end Algorithm

/-- Secret octets that key a cipher. -/
structure Key where
  octets : Bytes
  deriving DecidableEq, Repr

namespace Key

/-- The size of a legacy key. -/
def legacySize : Nat := 16

/-- The octets that a password is combined with. They are part of every build and so no secret; they stay as they are so
that old entries stay readable. -/
def legacyMask : Bytes :=
  [0x3c, 0x9a, 0x51, 0xe7, 0x08, 0xb4, 0x6d, 0x22, 0xf1, 0x47, 0x9e, 0x0b, 0xc5, 0x73, 0x2a, 0xd8]

/-- The legacy key of a password: its octets are written over zeros, as far as both go, and then combined with those of
the mask. -/
def legacy (password : String) : Key :=
  let slots := combineFront (fun _ octet => octet) (List.replicate legacySize 0) (Utf8.encode password)
  ⟨combineFront (· ^^^ ·) slots legacyMask⟩

/-- The digest of a password as a key. -/
def sha256 (password : String) : Key := ⟨Sha256.digest (Utf8.encode password)⟩

/-- The key that an algorithm needs, out of a password. -/
def derive (algorithm : Algorithm) (password : String) : Key :=
  match algorithm with
  | .legacyAes128Ecb => legacy password
  | .aes256Gcm => sha256 password

/-- Takes raw octets of a usable size. Others are refused with the longer size if they are more than the shorter one, and
else with the shorter. -/
def ofOctets (octets : Bytes) : Except VaultError Key :=
  let short := Algorithm.legacyAes128Ecb.keySize
  let long := Algorithm.aes256Gcm.keySize
  if octets.length = short ∨ octets.length = long then .ok ⟨octets⟩
  else .error (.keySize (if short < octets.length then long else short) octets.length)

/-- A key shown by the first ten octets of its digest. An octet below sixteen has one digit there. -/
def shown (k : Key) : String :=
  let digits := ((Sha256.digest k.octets).take 10).flatMap fun b => Nat.toDigits 16 b.toNat
  Text.tuple "CipherKey" ("hash=" ++ String.ofList digits ++ "...")

end Key

end ClientAuth
