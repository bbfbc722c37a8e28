import ClientAuth.Vault.Cipher
import Mathlib.Data.Nat.Dist

/-!
# Keys of the right size

A block cipher takes keys of one size only. A cipher can be made out of a password, whose key is handed to the block
cipher as it was derived, or out of a key, whose size is looked at first. Here the block cipher looks at the size itself
(`Aes.Schedule.ofSized?`), so that handing it a key of another size is a failure of its own. Derived keys have the right
size (`Key.length_derive`); so no password makes the first way fail, both ways give the same cipher, and raw octets make
one exactly if there are as many of them as the algorithm needs (`Cipher.constructions_agree`).

Raw octets that no algorithm can use are refused with a size that one can. It is the closest such size unless there are
a few octets more than the shorter size: up to halfway between the two the longer one is named all the same
(`Key.closest_size_named_unless_slightly_long`).
-/

namespace ClientAuth

/-- A state is eight words of four octets. -/
theorem Sha256.State.length_octets (s : Sha256.State) : s.octets.length = 32 := rfl

/-- A digest has 32 octets, whatever the message is. -/
theorem Sha256.length_digest (message : Bytes) : (Sha256.digest message).length = 32 :=
  State.length_octets _

/-- The size in octets of the keys that the block cipher of an algorithm takes: 128 bits and 256 bits. -/
def Algorithm.blockCipherKeySize : Algorithm → Nat
  | legacyAes128Ecb => 128 / 8
  | aes256Gcm => 256 / 8

/-- The size that an algorithm asks for is the one that its block cipher takes. -/
theorem Algorithm.blockCipherKeySize_eq (a : Algorithm) : a.blockCipherKeySize = a.keySize := by
  cases a with
  | legacyAes128Ecb => rfl
  | aes256Gcm => rfl

/-- No algorithm needs keys of a size that is closer to `n`. -/
def Algorithm.IsClosestTo (a : Algorithm) (n : Nat) : Prop := ∀ b : Algorithm, Nat.dist n a.keySize ≤ Nat.dist n b.keySize

/-- The shorter size is the closest one up to halfway between the two. -/
theorem Algorithm.isClosestTo_legacy_iff (n : Nat) : legacyAes128Ecb.IsClosestTo n ↔ n ≤ 24 := by
  constructor
  · intro h
    have hother := h .aes256Gcm
    simp only [keySize, Nat.dist] at hother
    omega
  · intro hn b
    cases b <;> simp only [keySize, Nat.dist] <;> omega

/-- The longer size is the closest one from halfway between the two on. -/
theorem Algorithm.isClosestTo_gcm_iff (n : Nat) : aes256Gcm.IsClosestTo n ↔ 24 ≤ n := by
  constructor
  · intro h
    have hother := h .legacyAes128Ecb
    simp only [keySize, Nat.dist] at hother
    omega
  · intro hn b
    cases b <;> simp only [keySize, Nat.dist] <;> omega

/-- The schedule of a key for a block cipher that takes keys of one size; there is none of any other key. -/
def Aes.Schedule.ofSized? (size : Nat) (key : Bytes) : Option Schedule :=
  if key.length = size then some (.ofKey key) else none

namespace Key

theorem length_legacy (password : String) : (legacy password).octets.length = legacySize := by
  rw [legacy, length_combineFront, length_combineFront, List.length_replicate]

/-- The key that is derived for an algorithm has the size that the algorithm needs. -/
theorem length_derive (a : Algorithm) (password : String) : (derive a password).octets.length = a.keySize := by
  cases a with
  | legacyAes128Ecb => exact length_legacy password
  | aes256Gcm => exact Sha256.length_digest (Utf8.encode password)

/-- Raw octets are taken as they are if there are as many as some algorithm needs. -/
theorem ofOctets_of_keySize {raw : Bytes} {a : Algorithm} (h : raw.length = a.keySize) : ofOctets raw = .ok ⟨raw⟩ := by
  unfold ofOctets
  cases a with
  | legacyAes128Ecb => exact if_pos (Or.inl h)
  | aes256Gcm => exact if_pos (Or.inr h)

/-- Raw octets of a size that no algorithm needs are refused with the longer size if there are more of them than the
shorter one, and else with that. -/
theorem ofOctets_eq_of_unusable {raw : Bytes} (h : ∀ a : Algorithm, raw.length ≠ a.keySize) :
    ofOctets raw = .error (.keySize
      (if Algorithm.legacyAes128Ecb.keySize < raw.length then Algorithm.aes256Gcm.keySize
        else Algorithm.legacyAes128Ecb.keySize) raw.length) := by
  have hsize : ¬(raw.length = Algorithm.legacyAes128Ecb.keySize ∨ raw.length = Algorithm.aes256Gcm.keySize) := by
    rw [not_or]
    exact ⟨h .legacyAes128Ecb, h .aes256Gcm⟩
  unfold ofOctets
  exact if_neg hsize

/-- Raw octets of a size that no algorithm needs are refused with the size that some algorithm needs, next to their
own. -/
theorem ofOctets_of_unusable {raw : Bytes} (h : ∀ a : Algorithm, raw.length ≠ a.keySize) :
    ∃ a : Algorithm, ofOctets raw = .error (.keySize a.keySize raw.length) := by
  rw [ofOctets_eq_of_unusable h]
  split
  · exact ⟨.aes256Gcm, rfl⟩
  · exact ⟨.legacyAes128Ecb, rfl⟩

/-- Raw octets of a size that no algorithm needs are refused with their own size and one that an algorithm needs, so that
as many octets as that are taken. No other algorithm needs a size that is closer, unless there are more octets than 16 and
fewer than 24: then 32 is named, though 16 is closer. -/
theorem closest_size_named_unless_slightly_long {raw : Bytes} (hshort : raw.length ≠ 16) (hlong : raw.length ≠ 32) :
    ∃ a : Algorithm, ofOctets raw = .error (.keySize a.keySize raw.length) ∧
      (∀ other : Bytes, other.length = a.keySize → ofOctets other = .ok ⟨other⟩) ∧
      (a.IsClosestTo raw.length ↔ ¬(16 < raw.length ∧ raw.length < 24)) := by
  have hunusable : ∀ a : Algorithm, raw.length ≠ a.keySize := by
    intro a
    cases a with
    | legacyAes128Ecb => exact hshort
    | aes256Gcm => exact hlong
  have hrefused := ofOctets_eq_of_unusable hunusable
  rcases Nat.lt_or_gt_of_ne hshort with hfewer | hmore
  · rw [if_neg (show ¬Algorithm.legacyAes128Ecb.keySize < raw.length from Nat.lt_asymm hfewer)] at hrefused
    refine ⟨.legacyAes128Ecb, hrefused, fun _ => ofOctets_of_keySize, ?_⟩
    rw [Algorithm.isClosestTo_legacy_iff]
    omega
  · rw [if_pos (show Algorithm.legacyAes128Ecb.keySize < raw.length from hmore)] at hrefused
    refine ⟨.aes256Gcm, hrefused, fun _ => ofOctets_of_keySize, ?_⟩
    rw [Algorithm.isClosestTo_gcm_iff]
    omega

/-- Twenty octets are refused with a size that is not the closest. -/
theorem closest_size_named_unless_slightly_long_twenty :
    let raw : Bytes := List.replicate 20 0
    raw.length ≠ 16 ∧ raw.length ≠ 32 ∧
      ∃ a : Algorithm, ofOctets raw = .error (.keySize a.keySize raw.length) ∧ ¬a.IsClosestTo raw.length := by
  intro raw
  have hshort : raw.length ≠ 16 := by decide
  have hlong : raw.length ≠ 32 := by decide
  obtain ⟨a, hrefused, -, hclosest⟩ := closest_size_named_unless_slightly_long hshort hlong
  exact ⟨hshort, hlong, a, hrefused, fun h => hclosest.1 h ⟨by decide, by decide⟩⟩

end Key

namespace Cipher

/-- What a block cipher makes of octets that it is handed as a key; it makes nothing of octets of another size. -/
def handed? (a : Algorithm) (octets : Bytes) : Option Cipher :=
  (Aes.Schedule.ofSized? a.blockCipherKeySize octets).map (⟨a, ·⟩)

/-- The cipher of a key whose size is looked at twice, first here and then by the block cipher. -/
def ofKeyTwice (a : Algorithm) (key : Key) : Except VaultError Cipher :=
  if key.octets.length = a.keySize then
    match handed? a key.octets with
    | some c => .ok c
    | none => .error (.keySize a.keySize key.octets.length)
  else .error (.keySize a.keySize key.octets.length)

/-- A block cipher takes octets of the size that its algorithm asks for. -/
theorem handed?_of_length {a : Algorithm} {octets : Bytes} (h : octets.length = a.keySize) :
    handed? a octets = some ⟨a, .ofKey octets⟩ := by
  rw [handed?, Aes.Schedule.ofSized?, a.blockCipherKeySize_eq, if_pos h]
  rfl

theorem ofKey_of_length {a : Algorithm} {key : Key} (h : key.octets.length = a.keySize) :
    ofKey a key = .ok ⟨a, .ofKey key.octets⟩ :=
  if_pos h

theorem ofKey_of_length_ne {a : Algorithm} {key : Key} (h : key.octets.length ≠ a.keySize) :
    ofKey a key = .error (.keySize a.keySize key.octets.length) :=
  if_neg h

/-- The second look at the size of a key finds nothing that the first has not found. -/
theorem ofKeyTwice_eq (a : Algorithm) (key : Key) : ofKeyTwice a key = ofKey a key := by
  unfold ofKeyTwice
  by_cases h : key.octets.length = a.keySize
  · rw [if_pos h, handed?_of_length h, ofKey_of_length h]
  · rw [if_neg h, ofKey_of_length_ne h]

/-- Raw octets of the size that an algorithm needs make its cipher. -/
theorem ofOctets_bind_of_length {a : Algorithm} {raw : Bytes} (h : raw.length = a.keySize) :
    (Key.ofOctets raw >>= ofKey a) = .ok ⟨a, .ofKey raw⟩ := by
  rw [Key.ofOctets_of_keySize h]
  exact ofKey_of_length h

/-- Raw octets of any other size are refused: by the key if no algorithm needs as many, and else by the cipher. -/
theorem ofOctets_bind_of_length_ne {a : Algorithm} {raw : Bytes} (h : raw.length ≠ a.keySize) :
    ∃ expected : Algorithm, expected.keySize ≠ raw.length ∧
      (Key.ofOctets raw >>= ofKey a) = .error (.keySize expected.keySize raw.length) := by
  by_cases husable : ∃ b : Algorithm, raw.length = b.keySize
  · obtain ⟨b, hb⟩ := husable
    refine ⟨a, h.symm, ?_⟩
    rw [Key.ofOctets_of_keySize hb]
    exact ofKey_of_length_ne h
  · have hunusable : ∀ b : Algorithm, raw.length ≠ b.keySize := fun b hb => husable ⟨b, hb⟩
    obtain ⟨expected, hrefused⟩ := Key.ofOctets_of_unusable hunusable
    refine ⟨expected, (hunusable expected).symm, ?_⟩
    rw [hrefused]
    rfl

/-- Both ways of making a cipher agree, and neither can stop the program. The key that is derived from any password has
the size that the algorithm needs; so the block cipher takes it, and the cipher is the very one that the derived key
makes when its size is looked at first. To look at it a second time changes nothing for any key. Raw octets make a
cipher exactly if there are as many as the algorithm needs, and it is the one with these octets for a key; any others
are refused with their own number next to another one, which some algorithm needs. -/
theorem constructions_agree (a : Algorithm) :
    (∀ password, (Key.derive a password).octets.length = a.keySize ∧
      handed? a (Key.derive a password).octets = some (ofPassword a password) ∧
      ofKey a (Key.derive a password) = .ok (ofPassword a password)) ∧
    (∀ key, ofKeyTwice a key = ofKey a key) ∧
    (∀ raw c, (Key.ofOctets raw >>= ofKey a) = .ok c ↔ raw.length = a.keySize ∧ c = ⟨a, .ofKey raw⟩) ∧
    ∀ raw, raw.length ≠ a.keySize → ∃ expected : Algorithm, expected.keySize ≠ raw.length ∧
      (Key.ofOctets raw >>= ofKey a) = .error (.keySize expected.keySize raw.length) := by
  refine ⟨?derived, ofKeyTwice_eq a, ?raw, fun raw h => ofOctets_bind_of_length_ne h⟩
  case derived =>
    intro password
    have hlength := Key.length_derive a password
    exact ⟨hlength, handed?_of_length hlength, ofKey_of_length hlength⟩
  case raw =>
    intro raw c
    by_cases h : raw.length = a.keySize
    · rw [ofOctets_bind_of_length h, Except.ok.injEq]
      exact ⟨fun hc => ⟨h, hc.symm⟩, fun hc => hc.2.symm⟩
    · obtain ⟨expected, -, hrefused⟩ := ofOctets_bind_of_length_ne h
      rw [hrefused]
      exact ⟨nofun, fun hc => absurd hc.1 h⟩

/-- Sixteen octets are a key, but none for the algorithm that needs 32 of them. -/
theorem constructions_agree_other_size :
    (List.replicate 16 (7 : UInt8)).length ≠ Algorithm.aes256Gcm.keySize ∧
      ∃ expected : Algorithm, expected.keySize ≠ 16 ∧
        (Key.ofOctets (List.replicate 16 7) >>= ofKey .aes256Gcm) = .error (.keySize expected.keySize 16) := by
  have hsize : (List.replicate 16 (7 : UInt8)).length ≠ Algorithm.aes256Gcm.keySize := by decide
  exact ⟨hsize, (constructions_agree .aes256Gcm).2.2.2 _ hsize⟩

end Cipher

end ClientAuth
