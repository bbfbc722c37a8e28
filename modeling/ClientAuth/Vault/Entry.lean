import ClientAuth.Json.Codec
import ClientAuth.Log
import ClientAuth.Vault.Cipher
import ClientAuth.Vault.Store

/-!
# Documents in a store

A value is kept as a JSON document in an envelope, under a key of a store. `rekey` protects an entry anew that was
protected by a previous cipher; between its two calls on the store it decides by `Rekey.decide`.
-/

namespace ClientAuth

open Json (Codec)

namespace Cipher

variable {α : Type}

/-- Puts a value into an envelope. -/
def encloseValue (c : Cipher) (codec : Codec α) (n : Nonces) (a : α) : String × Nonces :=
  c.encloseText n (codec.print a)

/-- The value in an envelope. -/
def discloseValue (c : Cipher) (codec : Codec α) (envelope : String) : Except VaultError α := do
  (codec.parse (← c.disclose envelope)).mapError .json

end Cipher

/-- What is to be done about an entry that may have to be protected anew. -/
inductive Rekey where
  /-- Nothing: there is no entry, or the current cipher reveals it. -/
  | keep
  /-- Another envelope takes its place. -/
  | replace (envelope : String)
  /-- The previous cipher does not reveal it either. -/
  | fail (e : VaultError)

/-- Decides about an entry. -/
def Rekey.decide (current previous : Cipher) (n : Nonces) : Option String → Rekey × Nonces
  | none => (.keep, n)
  | some envelope =>
    match current.disclose envelope with
    | .ok _ => (.keep, n)
    | .error _ =>
      match previous.disclose envelope with
      | .error e => (.fail e, n)
      | .ok message =>
        let (envelope, n) := current.enclose n message
        (.replace envelope, n)

/-- A store whose entries are protected documents. -/
structure Vault (σ : Type) where
  backing : Backing σ
  cipher : Cipher

namespace Vault

variable {σ α : Type} (v : Vault σ)

/-- Saves a value under a key. -/
def save (codec : Codec α) (s : σ) (n : Nonces) (key : String) (a : α) : Except VaultError Unit × σ × Nonces :=
  let (envelope, n) := v.cipher.encloseValue codec n a
  let (r, s) := v.backing.save s key envelope
  (r, s, n)

/-- The value under a key, if there is an entry. -/
def load (codec : Codec α) (s : σ) (key : String) : Except VaultError (Option α) := do
  match ← v.backing.load s key with
  | none => return none
  | some envelope => return some (← v.cipher.discloseValue codec envelope)

/-- Removes the entry of a key. -/
def remove (s : σ) (key : String) : Except VaultError Unit × σ := v.backing.remove s key

/-- Protects the entry of a key by the cipher of the vault if it was protected by a previous one, and tells whether it
did. -/
def rekey (previous : Cipher) (s : σ) (n : Nonces) (key : String) :
    Except VaultError Bool × σ × Nonces × List LogEvent :=
  match v.backing.load s key with
  | .error e => (.error e, s, n, [])
  | .ok entry =>
    match Rekey.decide v.cipher previous n entry with
    | (.keep, n) => (.ok false, s, n, [])
    | (.fail e, n) => (.error e, s, n, [])
    | (.replace envelope, n) =>
      match v.backing.save s key envelope with
      | (.error e, s) => (.error e, s, n, [])
      | (.ok (), s) => (.ok true, s, n, [.rekeyed key previous.algorithm v.cipher.algorithm])

end Vault

end ClientAuth
