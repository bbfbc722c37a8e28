import ClientAuth.Proofs.Encoding.Aes
import ClientAuth.Proofs.Encoding.Base64
import ClientAuth.Vault.Cipher

/-!
# What a cipher protects it reveals

Padding is taken off as it was put on, blocks are decrypted one by one as they were encrypted, and a sealed message is
opened under the nonce that stands before it (`Cipher.reveal_protectWith`). So an envelope gives back what was put into
it, whichever nonce was drawn, if nonces have their size (`Nonces.Sized`, `Cipher.disclose_enclose`).
-/

namespace ClientAuth

/-- A first stretch that has the whole size is cut off as it is. -/
theorem chunks_append {α : Type} {size : Nat} {block : List α} (hsize : size ≠ 0) (hblock : block.length = size)
    (rest : List α) : chunks size (block ++ rest) = block :: chunks size rest := by
  have hne : (block ++ rest).isEmpty = false := by
    cases block with
    | nil => exact absurd hblock.symm hsize
    | cons a block => rfl
  rw [chunks, hne, Bool.false_or, beq_eq_false_iff_ne.2 hsize, if_neg Bool.false_ne_true, ← hblock, List.take_left,
    List.drop_left]

namespace Padding

/-- A padded message is some whole blocks, and at least one. -/
theorem length_add (message : Bytes) :
    ∃ n, (add message).length = Aes.blockSize * (n + 1) := by
  refine ⟨message.length / Aes.blockSize, ?_⟩
  simp only [add, List.length_append, List.length_replicate, Aes.blockSize]
  omega

/-- Padding is taken off as it was put on. -/
theorem remove?_add (message : Bytes) : remove? (add message) = some message := by
  have hpad : ∃ n, 1 ≤ n ∧ n ≤ Aes.blockSize ∧ add message = message ++ List.replicate n (UInt8.ofNat n) := by
    refine ⟨Aes.blockSize - message.length % Aes.blockSize, ?_, ?_, rfl⟩
    · simp only [Aes.blockSize]
      omega
    · simp only [Aes.blockSize]
      omega
  obtain ⟨n, hlow, hhigh, hadd⟩ := hpad
  have hnat : (UInt8.ofNat n).toNat = n := Utf8.toNat_ofNat (by simp only [Aes.blockSize] at hhigh; omega)
  have hlast : (message ++ List.replicate n (UInt8.ofNat n)).getLastD 0 = UInt8.ofNat n := by
    obtain ⟨k, rfl⟩ : ∃ k, n = k + 1 := ⟨n - 1, by omega⟩
    rw [List.replicate_succ', ← List.append_assoc, List.getLastD_concat]
  have hkept : (message ++ List.replicate n (UInt8.ofNat n)).length - n = message.length := by
    rw [List.length_append, List.length_replicate, Nat.add_sub_cancel]
  have hlong : n ≤ (message ++ List.replicate n (UInt8.ofNat n)).length := by
    rw [List.length_append, List.length_replicate]
    omega
  rw [hadd, remove?]
  simp only [hlast, hnat, hkept, List.take_left, List.drop_left]
  rw [if_pos]
  refine ⟨hlow, hhigh, hlong, ?_⟩
  rw [List.all_eq_true]
  intro b hb
  rw [List.eq_of_mem_replicate hb, hnat, beq_self_eq_true]

end Padding

/-- Nonces that all have the size of the authenticated cipher. -/
def Nonces.Sized (n : Nonces) : Prop := ∀ k, (n.row k).length = Aes.Gcm.nonceSize

theorem Nonces.Sized.advance {n : Nonces} (h : n.Sized) : n.advance.Sized := h

/-- Counted nonces have their size. -/
theorem Nonces.sized_ofList_nil : (Nonces.ofList []).Sized := by
  intro k
  simp [ofList, counted]

namespace Cipher

/-- The first block is transformed on its own. -/
theorem mapBlocks_append (f : Aes.Block → Aes.Block) {block : Bytes} (hblock : block.length = Aes.blockSize)
    (rest : Bytes) : mapBlocks f (block ++ rest) = (f (.ofOctets block)).octets ++ mapBlocks f rest := by
  rw [mapBlocks, chunks_append (by decide) hblock, List.flatMap_cons, mapBlocks]

theorem mapBlocks_nil (f : Aes.Block → Aes.Block) : mapBlocks f [] = [] := by
  rw [mapBlocks, chunks]
  rfl

/-- Whole blocks are a first one and the rest of them. -/
theorem exists_block {n : Nat} {bs : Bytes} (h : bs.length = Aes.blockSize * (n + 1)) :
    ∃ block rest, bs = block ++ rest ∧ block.length = Aes.blockSize ∧ rest.length = Aes.blockSize * n := by
  refine ⟨bs.take Aes.blockSize, bs.drop Aes.blockSize, (List.take_append_drop _ _).symm, ?_, ?_⟩
  · rw [List.length_take, h]
    simp only [Aes.blockSize]
    omega
  · rw [List.length_drop, h]
    simp only [Aes.blockSize]
    omega

/-- Whole blocks stay whole. -/
theorem length_mapBlocks (f : Aes.Block → Aes.Block) {n : Nat} {bs : Bytes} (h : bs.length = Aes.blockSize * n) :
    (mapBlocks f bs).length = bs.length := by
  induction n generalizing bs with
  | zero =>
    obtain rfl := List.eq_nil_of_length_eq_zero h
    rw [mapBlocks_nil]
  | succ n ih =>
    obtain ⟨block, rest, rfl, hblock, hrest⟩ := exists_block h
    rw [mapBlocks_append f hblock, List.length_append, List.length_append, ih hrest, Aes.Block.length_octets, hblock]

/-- Whole blocks are transformed back one by one. -/
theorem mapBlocks_mapBlocks {f g : Aes.Block → Aes.Block} (hfg : ∀ s, g (f s) = s) {n : Nat} {bs : Bytes}
    (h : bs.length = Aes.blockSize * n) : mapBlocks g (mapBlocks f bs) = bs := by
  induction n generalizing bs with
  | zero =>
    obtain rfl := List.eq_nil_of_length_eq_zero h
    rw [mapBlocks_nil, mapBlocks_nil]
  | succ n ih =>
    obtain ⟨block, rest, rfl, hblock, hrest⟩ := exists_block h
    rw [mapBlocks_append f hblock, mapBlocks_append g (Aes.Block.length_octets _), Aes.Block.ofOctets_octets, hfg,
      Aes.Block.octets_ofOctets hblock, ih hrest]

/-- What was protected with a nonce of the right size is revealed. -/
theorem reveal_protectWith (c : Cipher) {nonce : Bytes} (hnonce : nonce.length = Aes.Gcm.nonceSize) (message : Bytes) :
    c.reveal (c.protectWith nonce message) = .ok message := by
  cases ha : c.algorithm with
  | legacyAes128Ecb =>
    obtain ⟨n, hlength⟩ := Padding.length_add message
    have hwhole := length_mapBlocks (Aes.encrypt c.schedule) hlength
    have hne : ¬((mapBlocks (Aes.encrypt c.schedule) (Padding.add message)).isEmpty ∨
        (mapBlocks (Aes.encrypt c.schedule) (Padding.add message)).length % Aes.blockSize ≠ 0) := by
      rw [List.isEmpty_iff, ← List.length_eq_zero_iff, hwhole, hlength]
      simp only [Aes.blockSize]
      omega
    have hback := mapBlocks_mapBlocks (Aes.decrypt_encrypt c.schedule) hlength
    simp only [reveal, protectWith, ha, if_neg hne, hback, Padding.remove?_add]
  | aes256Gcm =>
    have hlong : ¬(nonce ++ Aes.Gcm.protect c.schedule nonce message).length < Aes.Gcm.nonceSize := by
      rw [List.length_append, hnonce]
      omega
    have htake : (nonce ++ Aes.Gcm.protect c.schedule nonce message).take Aes.Gcm.nonceSize = nonce :=
      List.take_left' hnonce
    have hdrop : (nonce ++ Aes.Gcm.protect c.schedule nonce message).drop Aes.Gcm.nonceSize =
        Aes.Gcm.protect c.schedule nonce message := List.drop_left' hnonce
    simp only [reveal, protectWith, ha, if_neg hlong, htake, hdrop, Aes.Gcm.reveal?_protect]

/-- What is in the base64 text of octets is what they reveal. -/
theorem disclose_encode (c : Cipher) (bs : Bytes) : c.disclose (Base64.encode Base64.standard bs) = c.reveal bs := by
  rw [disclose, Base64.trim_encode, Base64.decode_encode]
  rfl

/-- An envelope gives back the octets that were put into it. -/
theorem disclose_enclose (c : Cipher) {n : Nonces} (hn : n.Sized) (message : Bytes) :
    c.disclose (c.enclose n message).1 = .ok message := by
  have henvelope : (c.enclose n message).1 = Base64.encode Base64.standard (c.protectWith n.next message) := rfl
  rw [henvelope, disclose_encode]
  exact c.reveal_protectWith (hn n.drawn) message

/-- What an envelope takes from the supply leaves the nonces as they are. -/
theorem row_enclose (c : Cipher) (n : Nonces) (message : Bytes) : (c.enclose n message).2.row = n.row := by
  have hspend : (c.enclose n message).2 = c.spend n := rfl
  rw [hspend, spend]
  cases c.algorithm with
  | legacyAes128Ecb => rfl
  | aes256Gcm => rfl

end Cipher

end ClientAuth
