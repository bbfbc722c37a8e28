import ClientAuth.Proofs.Encoding.Aes
import ClientAuth.Vault.Cipher
import Mathlib.Data.List.GetD

/-!
# Which passwords have the same legacy key

A legacy key is the password, cut off or filled up with zero octets to the size of a key (`Key.fitted`), under a mask that
can be taken off again. So two passwords have the same key exactly if they are the same in this form
(`Key.legacy_eq_iff`), and then no envelope tells their ciphers apart (`Key.legacy_keys_coincide`).
-/

namespace ClientAuth

/-- Two byte strings of a mask's size are the same if they are under the mask. -/
theorem xorBytes_right_inj {a b mask : Bytes} (ha : a.length = mask.length) (hb : b.length = mask.length) :
    xorBytes a mask = xorBytes b mask ↔ a = b := by
  constructor
  · intro h
    rw [← Aes.Gcm.xorBytes_cancel (Nat.le_of_eq ha), h, Aes.Gcm.xorBytes_cancel (Nat.le_of_eq hb)]
  · exact congrArg (xorBytes · mask)

namespace Key

/-- The octets of a password, cut off or filled up with zero octets to the size of a legacy key. -/
def fitted (password : String) : Bytes :=
  (Utf8.encode password).take legacySize ++ List.replicate (legacySize - (Utf8.encode password).length) 0

theorem length_fitted (password : String) : (fitted password).length = legacySize := by
  rw [fitted, List.length_append, List.length_take, List.length_replicate]
  omega

/-- Where the password has an octet it is that one, and behind its end it is zero. -/
theorem getElem_fitted (password : String) {i : Nat} (h : i < (fitted password).length) :
    (fitted password)[i] = (Utf8.encode password).getD i 0 := by
  have hi : i < legacySize := length_fitted password ▸ h
  by_cases hend : i < (Utf8.encode password).length
  · have htaken : i < ((Utf8.encode password).take legacySize).length := by
      rw [List.length_take]
      omega
    rw [List.getD_eq_getElem _ _ hend]
    simp only [fitted, List.getElem_append_left htaken, List.getElem_take]
  · have htaken : ((Utf8.encode password).take legacySize).length ≤ i := by
      rw [List.length_take]
      omega
    rw [List.getD_eq_default _ _ (Nat.le_of_not_lt hend)]
    simp only [fitted, List.getElem_append_right htaken, List.getElem_replicate]

/-- Written over zeros a password is fitted. -/
theorem combineFront_zeros (password : String) :
    combineFront (fun _ octet => octet) (List.replicate legacySize 0) (Utf8.encode password) = fitted password := by
  rw [combineFront_write, List.length_replicate, List.drop_replicate]
  rfl

/-- A legacy key is the fitted password under the mask. -/
theorem octets_legacy (password : String) : (legacy password).octets = xorBytes (fitted password) legacyMask := by
  have hmask : (fitted password).length ≤ legacyMask.length := Nat.le_of_eq (length_fitted password)
  rw [legacy, combineFront_zeros, combineFront_eq_zipWith hmask]
  rfl

/-- Two passwords have the same legacy key exactly if they are fitted to the same octets. -/
theorem legacy_eq_iff (p q : String) : legacy p = legacy q ↔ fitted p = fitted q := by
  have hoctets : legacy p = legacy q ↔ (legacy p).octets = (legacy q).octets := by
    rw [Key.mk.injEq]
  rw [hoctets, octets_legacy, octets_legacy]
  exact xorBytes_right_inj (length_fitted p) (length_fitted q)

/-- Zero octets at the end of a password make no difference to what it is fitted to. -/
theorem fitted_append_nul (password : String) (n : Nat) :
    fitted (password ++ String.ofList (List.replicate n '\x00')) = fitted password := by
  have hnul : Utf8.encode (password ++ String.ofList (List.replicate n '\x00')) =
      Utf8.encode password ++ List.replicate n 0 := by
    have hzero : Utf8.encodeChar '\x00' = [0] := by decide
    rw [Utf8.encode, String.toList_append, String.toList_ofList, Utf8.encodeChars, List.flatMap_append,
      List.flatMap_replicate, hzero, List.flatten_replicate_singleton]
    rfl
  refine List.ext_getElem (by rw [length_fitted, length_fitted]) fun i hi hi' => ?_
  rw [getElem_fitted, getElem_fitted, hnul]
  by_cases hend : i < (Utf8.encode password).length
  · exact List.getD_append _ _ _ _ hend
  · rw [List.getD_append_right _ _ _ _ (Nat.le_of_not_lt hend), List.getD_eq_default _ _ (Nat.le_of_not_lt hend)]
    exact List.getElem?_getD_replicate_default_eq 0 n _

end Key

namespace Cipher

/-- Two ciphers that no message and no envelope tells apart, whatever nonces either draws. -/
structure Alike (c d : Cipher) : Prop where
  protect : ∀ (n n' : Nonces) (message : Bytes), (c.protect n message).1 = (d.protect n' message).1
  reveal : ∀ bs : Bytes, c.reveal bs = d.reveal bs
  encloseText : ∀ (n n' : Nonces) (message : String), (c.encloseText n message).1 = (d.encloseText n' message).1
  disclose : ∀ envelope : String, c.disclose envelope = d.disclose envelope
  discloseText : ∀ envelope : String, c.discloseText envelope = d.discloseText envelope

/-- A legacy cipher is not told apart from itself: it takes no notice of the nonces that it is given. -/
theorem alike_self {c : Cipher} (h : c.algorithm = .legacyAes128Ecb) : c.Alike c := by
  have hprotect : ∀ (n n' : Nonces) (message : Bytes), (c.protect n message).1 = (c.protect n' message).1 := by
    -- Nonces are drawn for the other algorithm only.
    intro n n' message
    simp only [protect, protectWith, h]
  refine ⟨hprotect, fun _ => rfl, fun n n' message => ?_, fun _ => rfl, fun _ => rfl⟩
  simp only [encloseText, enclose, hprotect n n']

end Cipher

namespace Key

/-- Legacy keys coincide exactly on equal prefixes. A legacy key is the password, cut off or filled up with zero octets to
sixteen octets, under the mask. Two passwords have the same key exactly if they are the same in this form, and zero octets
at the end make no difference to it. Then the legacy ciphers of both seal every message to the same octets and give the
same answer to every envelope, errors included. -/
theorem legacy_keys_coincide :
    (∀ password, (legacy password).octets = xorBytes (fitted password) legacyMask) ∧
    (∀ p q, legacy p = legacy q ↔ fitted p = fitted q) ∧
    (∀ password n, fitted (password ++ String.ofList (List.replicate n '\x00')) = fitted password) ∧
    ∀ p q, fitted p = fitted q →
      (Cipher.ofPassword .legacyAes128Ecb p).Alike (Cipher.ofPassword .legacyAes128Ecb q) := by
  refine ⟨octets_legacy, legacy_eq_iff, fitted_append_nul, fun p q h => ?_⟩
  have hkey : derive .legacyAes128Ecb p = derive .legacyAes128Ecb q := (legacy_eq_iff p q).2 h
  rw [Cipher.ofPassword, hkey]
  exact Cipher.alike_self rfl

/-- Two passwords of seventeen octets, the last of which ends a character that the first sixteen begin. -/
theorem legacy_keys_coincide_within_character :
    fitted "fifteen letters\u00e9" = fitted "fifteen letters\u00e8" ∧
      legacy "fifteen letters\u00e9" = legacy "fifteen letters\u00e8" ∧
      (Cipher.ofPassword .legacyAes128Ecb "fifteen letters\u00e9").Alike
        (Cipher.ofPassword .legacyAes128Ecb "fifteen letters\u00e8") := by
  obtain ⟨-, hkeys, -, hciphers⟩ := legacy_keys_coincide
  have hfitted : fitted "fifteen letters\u00e9" = fitted "fifteen letters\u00e8" := by decide +kernel
  exact ⟨hfitted, (hkeys _ _).2 hfitted, hciphers _ _ hfitted⟩

end Key

end ClientAuth
