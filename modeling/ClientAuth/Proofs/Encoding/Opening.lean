import ClientAuth.Proofs.Encoding.Cipher
import Mathlib.Data.Finite.Prod

/-!
# A cipher reveals only what it protects

`Cipher.reveal_protectWith` says that what was protected is revealed; here the other way round. There are only finitely
many blocks, so that encrypting undoes decrypting as well (`Aes.encrypt_decrypt`). What padding is taken off is the padding
that would be put on (`Padding.add_of_remove?`), and a tag that is right is the one that would be appended
(`Aes.Gcm.protect_of_reveal?`). So the legacy cipher accepts exactly what it makes, and the authenticated one exactly what
it makes when it draws the nonce that stands in front (`Cipher.reveals_exactly_protected`).
-/

namespace ClientAuth

namespace Aes

/-- An octet is one of 256 numbers. -/
theorem finite_octet : Finite UInt8 := by
  refine Finite.of_injective UInt8.toFin ?_
  intro a b h
  exact UInt8.toFin_inj.1 h

instance : Finite Column := by
  have hoctet := finite_octet
  refine Finite.of_injective (fun s : Column => (s.a, s.b, s.c, s.d)) ?_
  rintro ⟨a, b, c, d⟩ ⟨a', b', c', d'⟩ h
  simp only [Prod.mk.injEq] at h
  obtain ⟨rfl, rfl, rfl, rfl⟩ := h
  rfl

instance : Finite Block := by
  refine Finite.of_injective (fun s : Block => (s.w, s.x, s.y, s.z)) ?_
  rintro ⟨w, x, y, z⟩ ⟨w', x', y', z'⟩ h
  simp only [Prod.mk.injEq] at h
  obtain ⟨rfl, rfl, rfl, rfl⟩ := h
  rfl

/-- Encrypting undoes decrypting: no two blocks are encrypted alike, so that every block is an encrypted one. -/
theorem encrypt_decrypt (k : Schedule) (s : Block) : encrypt k (decrypt k s) = s := by
  have hleft : Function.LeftInverse (decrypt k) (encrypt k) := decrypt_encrypt k
  have hsurjective : Function.Surjective (encrypt k) := Finite.injective_iff_surjective.1 hleft.injective
  exact hleft.rightInverse_of_surjective hsurjective s

/-- What is revealed under a nonce was protected under it. -/
theorem Gcm.protect_of_reveal? {k : Schedule} {nonce sealed message : Bytes}
    (h : reveal? k nonce sealed = some message) : protect k nonce message = sealed := by
  unfold reveal? at h
  split at h
  · cases h
  · simp only at h
    split at h
    · rename_i htag
      obtain rfl := Option.some.inj h
      rw [protect, add_add, ← htag, List.take_append_drop]
    · cases h

/-- Revealing gives the one message that is protected as what is there, and nothing otherwise. -/
theorem Gcm.reveal?_eq_some_iff (k : Schedule) (nonce sealed message : Bytes) :
    reveal? k nonce sealed = some message ↔ sealed = protect k nonce message := by
  constructor
  · intro h
    exact (protect_of_reveal? h).symm
  · rintro rfl
    exact reveal?_protect k nonce message

end Aes

namespace Padding

/-- Padding of the number of octets that it says is as long as what is put on the rest, if all of it is whole blocks. -/
theorem size_of_whole {n kept : Nat} (hlow : 1 ≤ n) (hhigh : n ≤ Aes.blockSize)
    (hwhole : (kept + n) % Aes.blockSize = 0) : Aes.blockSize - kept % Aes.blockSize = n := by
  simp only [Aes.blockSize] at hhigh hwhole ⊢
  omega

/-- What padding is taken off whole blocks is the padding that is put on what is left. -/
theorem add_of_remove? {padded message : Bytes} (hwhole : padded.length % Aes.blockSize = 0)
    (h : remove? padded = some message) : add message = padded := by
  unfold remove? at h
  simp only at h
  split at h
  · rename_i hchecks
    obtain ⟨hlow, hhigh, hfits, hall⟩ := hchecks
    generalize hn : (padded.getLastD 0).toNat = n at h hlow hhigh hfits hall
    obtain rfl := Option.some.inj h
    have hkept : (padded.take (padded.length - n)).length = padded.length - n := by
      rw [List.length_take]
      omega
    have hsize : Aes.blockSize - (padded.length - n) % Aes.blockSize = n := by
      refine size_of_whole hlow hhigh ?_
      rw [Nat.sub_add_cancel hfits]
      exact hwhole
    have htail : padded.drop (padded.length - n) = List.replicate n (UInt8.ofNat n) := by
      refine List.eq_replicate_iff.2 ⟨?_, ?_⟩
      · rw [List.length_drop]
        omega
      · intro b hb
        have heq : b.toNat = n := beq_iff_eq.1 (List.all_eq_true.1 hall b hb)
        rw [← heq, UInt8.ofNat_toNat]
    unfold add
    simp only [hkept, hsize]
    rw [← htail, List.take_append_drop]
  · cases h

/-- Of whole blocks, exactly a padded message is stripped to that message. -/
theorem remove?_eq_some_iff {padded : Bytes} (hwhole : padded.length % Aes.blockSize = 0) (message : Bytes) :
    remove? padded = some message ↔ padded = add message := by
  constructor
  · intro h
    exact (add_of_remove? hwhole h).symm
  · rintro rfl
    exact remove?_add message

end Padding

namespace Cipher

variable (c : Cipher)

/-- Octets that the legacy cipher takes: some whole blocks, and at least one. -/
def Whole (bs : Bytes) : Prop := bs ≠ [] ∧ bs.length % Aes.blockSize = 0

instance (bs : Bytes) : Decidable (Whole bs) := inferInstanceAs (Decidable (_ ∧ _))

/-- The length of whole blocks. -/
theorem Whole.length_eq {bs : Bytes} (h : Whole bs) : ∃ n, bs.length = Aes.blockSize * (n + 1) := by
  have hpos : 0 < bs.length := List.length_pos_iff.2 h.1
  have hmod := h.2
  refine ⟨bs.length / Aes.blockSize - 1, ?_⟩
  simp only [Aes.blockSize] at hmod ⊢
  omega

/-- Whole blocks are decrypted to as many. -/
theorem Whole.length_decrypted {bs : Bytes} (h : Whole bs) :
    (mapBlocks (Aes.decrypt c.schedule) bs).length = bs.length := by
  obtain ⟨n, hn⟩ := h.length_eq
  exact length_mapBlocks _ hn

/-- A message that the legacy cipher protects is whole blocks. -/
theorem whole_encrypted (message : Bytes) : Whole (mapBlocks (Aes.encrypt c.schedule) (Padding.add message)) := by
  obtain ⟨n, hn⟩ := Padding.length_add message
  have hlength := length_mapBlocks (Aes.encrypt c.schedule) hn
  refine ⟨?_, ?_⟩
  · intro hnil
    rw [hnil, hn] at hlength
    simp only [List.length_nil, Aes.blockSize] at hlength
    omega
  · rw [hlength, hn, Nat.mul_mod_right]

/-- The legacy cipher encrypts what it decrypts, block by block. -/
theorem eq_mapBlocks_iff {bs : Bytes} (h : Whole bs) (message : Bytes) :
    mapBlocks (Aes.decrypt c.schedule) bs = Padding.add message ↔
      bs = mapBlocks (Aes.encrypt c.schedule) (Padding.add message) := by
  constructor
  · intro heq
    obtain ⟨n, hn⟩ := h.length_eq
    rw [← heq]
    exact (mapBlocks_mapBlocks (Aes.encrypt_decrypt c.schedule) hn).symm
  · rintro rfl
    obtain ⟨n, hn⟩ := Padding.length_add message
    exact mapBlocks_mapBlocks (Aes.decrypt_encrypt c.schedule) hn

/-- The legacy cipher refuses what is not whole blocks, by its length. -/
theorem reveal_of_not_whole (ha : c.algorithm = .legacyAes128Ecb) {bs : Bytes} (h : ¬Whole bs) :
    c.reveal bs = .error (.ciphertextLength bs.length) := by
  have hrefused : bs.isEmpty ∨ bs.length % Aes.blockSize ≠ 0 := by
    rw [List.isEmpty_iff]
    by_contra hneither
    rw [not_or, not_not] at hneither
    exact h hneither
  simp only [reveal, ha, if_pos hrefused]

/-- Of whole blocks, the legacy cipher reveals what is left without the padding, if there is padding. -/
theorem reveal_of_whole (ha : c.algorithm = .legacyAes128Ecb) {bs : Bytes} (h : Whole bs) :
    c.reveal bs = (Padding.remove? (mapBlocks (Aes.decrypt c.schedule) bs)).elim (.error .padding) .ok := by
  have hpass : ¬(bs.isEmpty ∨ bs.length % Aes.blockSize ≠ 0) := by
    rw [List.isEmpty_iff, not_or, not_not]
    exact h
  simp only [reveal, ha, if_neg hpass]
  cases Padding.remove? (mapBlocks (Aes.decrypt c.schedule) bs) with
  | none => rfl
  | some message => rfl

/-- The legacy cipher reveals a message of exactly the octets that it protects the message as. -/
theorem reveal_legacy_iff (ha : c.algorithm = .legacyAes128Ecb) (bs message : Bytes) :
    c.reveal bs = .ok message ↔ bs = mapBlocks (Aes.encrypt c.schedule) (Padding.add message) := by
  by_cases hwhole : Whole bs
  · have hdecrypted : (mapBlocks (Aes.decrypt c.schedule) bs).length % Aes.blockSize = 0 := by
      rw [hwhole.length_decrypted]
      exact hwhole.2
    rw [reveal_of_whole c ha hwhole, ← eq_mapBlocks_iff c hwhole, ← Padding.remove?_eq_some_iff hdecrypted]
    cases Padding.remove? (mapBlocks (Aes.decrypt c.schedule) bs) with
    | none => simp
    | some stripped => simp
  · rw [reveal_of_not_whole c ha hwhole]
    constructor
    · intro h
      cases h
    · rintro rfl
      exact absurd (whole_encrypted c message) hwhole

/-- The authenticated cipher reveals a message of exactly the octets that it protects the message as with the nonce that
stands in front of them. -/
theorem reveal_gcm_iff (ha : c.algorithm = .aes256Gcm) (bs message : Bytes) :
    c.reveal bs = .ok message ↔
      Aes.Gcm.nonceSize ≤ bs.length ∧
        bs = bs.take Aes.Gcm.nonceSize ++ Aes.Gcm.protect c.schedule (bs.take Aes.Gcm.nonceSize) message := by
  have hrest : ∀ sealed : Bytes, bs = bs.take Aes.Gcm.nonceSize ++ sealed ↔ bs.drop Aes.Gcm.nonceSize = sealed := by
    intro sealed
    nth_rewrite 1 [← List.take_append_drop Aes.Gcm.nonceSize bs]
    exact List.append_cancel_left_eq _ _ _ |>.to_iff
  rw [hrest, ← Aes.Gcm.reveal?_eq_some_iff]
  by_cases hshort : bs.length < Aes.Gcm.nonceSize
  · simp only [reveal, ha, if_pos hshort]
    constructor
    · intro h
      cases h
    · rintro ⟨hlong, -⟩
      exact absurd hshort (Nat.not_lt.2 hlong)
  · simp only [reveal, ha, if_neg hshort]
    cases Aes.Gcm.reveal? c.schedule (bs.take Aes.Gcm.nonceSize) (bs.drop Aes.Gcm.nonceSize) with
    | none => simp
    | some revealed => simp [Nat.le_of_not_lt hshort]

/-- The authenticated cipher refuses what has no room for a nonce and a tag. -/
theorem reveal_of_short (ha : c.algorithm = .aes256Gcm) {bs : Bytes}
    (h : bs.length < Aes.Gcm.nonceSize + Aes.Gcm.tagSize) : c.reveal bs = .error .notAuthentic := by
  have htag : (bs.drop Aes.Gcm.nonceSize).length < Aes.Gcm.tagSize := by
    have htag : 0 < Aes.Gcm.tagSize := by decide
    rw [List.length_drop]
    omega
  simp only [reveal, ha, Aes.Gcm.reveal?, if_pos htag]
  exact ite_self _

/-- The legacy cipher takes no notice of nonces. -/
theorem protect_legacy (ha : c.algorithm = .legacyAes128Ecb) (n : Nonces) (message : Bytes) :
    (c.protect n message).1 = mapBlocks (Aes.encrypt c.schedule) (Padding.add message) := by
  simp only [protect, protectWith, ha]

/-- The authenticated cipher puts the nonce that it draws in front. -/
theorem protect_gcm (ha : c.algorithm = .aes256Gcm) (n : Nonces) (message : Bytes) :
    (c.protect n message).1 = n.next ++ Aes.Gcm.protect c.schedule n.next message := by
  simp only [protect, protectWith, ha]

/-- What the legacy cipher does not reveal has a wrong length or a wrong padding. -/
theorem error_of_legacy (ha : c.algorithm = .legacyAes128Ecb) {bs : Bytes} {e : VaultError}
    (h : c.reveal bs = .error e) :
    e = if bs = [] ∨ bs.length % Aes.blockSize ≠ 0 then .ciphertextLength bs.length else .padding := by
  by_cases hwhole : Whole bs
  · have hpass : ¬(bs = [] ∨ bs.length % Aes.blockSize ≠ 0) := by
      rw [not_or, not_not]
      exact hwhole
    rw [if_neg hpass]
    rw [reveal_of_whole c ha hwhole] at h
    cases hremove : Padding.remove? (mapBlocks (Aes.decrypt c.schedule) bs) with
    | none =>
      rw [hremove] at h
      exact (Except.error.inj h).symm
    | some message =>
      rw [hremove] at h
      cases h
  · have hrefused : bs = [] ∨ bs.length % Aes.blockSize ≠ 0 := by
      by_contra hneither
      rw [not_or, not_not] at hneither
      exact hwhole hneither
    rw [if_pos hrefused]
    rw [reveal_of_not_whole c ha hwhole] at h
    exact (Except.error.inj h).symm

/-- What the authenticated cipher does not reveal is not authentic. -/
theorem error_of_gcm (ha : c.algorithm = .aes256Gcm) {bs : Bytes} {e : VaultError} (h : c.reveal bs = .error e) :
    e = .notAuthentic := by
  simp only [reveal, ha] at h
  split at h
  · exact (Except.error.inj h).symm
  · split at h
    · cases h
    · exact (Except.error.inj h).symm

/-- What is not revealed is refused. -/
theorem exists_error_iff (bs : Bytes) : (∃ e, c.reveal bs = .error e) ↔ ∀ message, c.reveal bs ≠ .ok message := by
  cases c.reveal bs with
  | error e => simp
  | ok message => simp

/-- A cipher reveals exactly what it protects. Whatever it protects it reveals. The legacy cipher reveals a message of no
octets but those that it protects the message as, the authenticated one of none but those that it protects the message
as when it draws the nonce that stands in front of them; so no two octet strings, with the same nonce in front, are
revealed alike. All else is refused: by its length, if that is not some whole blocks; by its padding, which is never
looked for beyond the octets that there are; and by the authenticated cipher as not authentic. -/
theorem reveals_exactly_protected (bs : Bytes) :
    (∀ (n : Nonces) (message : Bytes), n.next.length = Aes.Gcm.nonceSize →
      c.reveal (c.protect n message).1 = .ok message) ∧
    (c.algorithm = .legacyAes128Ecb →
      (∀ (n : Nonces) (message : Bytes), c.reveal bs = .ok message ↔ bs = (c.protect n message).1) ∧
      (∀ (other message : Bytes), c.reveal bs = .ok message → c.reveal other = .ok message → other = bs) ∧
      (∀ e, c.reveal bs = .error e ↔
        (∀ (n : Nonces) (message : Bytes), bs ≠ (c.protect n message).1) ∧
          e = if bs = [] ∨ bs.length % Aes.blockSize ≠ 0 then .ciphertextLength bs.length else .padding) ∧
      (bs ≠ [] → bs.length % Aes.blockSize = 0 →
        Aes.blockSize ≤ (mapBlocks (Aes.decrypt c.schedule) bs).length)) ∧
    (c.algorithm = .aes256Gcm →
      (∀ n : Nonces, n.next = bs.take Aes.Gcm.nonceSize → ∀ message : Bytes,
        c.reveal bs = .ok message ↔ Aes.Gcm.nonceSize ≤ bs.length ∧ bs = (c.protect n message).1) ∧
      (∀ (other message : Bytes), other.take Aes.Gcm.nonceSize = bs.take Aes.Gcm.nonceSize →
        c.reveal bs = .ok message → c.reveal other = .ok message → other = bs) ∧
      (∀ e, c.reveal bs = .error e ↔
        (∀ (n : Nonces) (message : Bytes), n.next.length = Aes.Gcm.nonceSize → bs ≠ (c.protect n message).1) ∧
          e = .notAuthentic)) := by
  have hback : ∀ (n : Nonces) (message : Bytes), n.next.length = Aes.Gcm.nonceSize →
      c.reveal (c.protect n message).1 = .ok message := by
    intro n message hn
    exact c.reveal_protectWith hn message
  refine ⟨hback, ?legacy, ?gcm⟩
  case legacy =>
    intro ha
    have hiff : ∀ (n : Nonces) (message : Bytes), c.reveal bs = .ok message ↔ bs = (c.protect n message).1 := by
      intro n message
      rw [protect_legacy c ha]
      exact reveal_legacy_iff c ha bs message
    refine ⟨hiff, ?_, ?_, ?_⟩
    · intro other message hbs hother
      rw [reveal_legacy_iff c ha] at hbs hother
      rw [hbs, hother]
    · intro e
      constructor
      · intro h
        refine ⟨?_, error_of_legacy c ha h⟩
        intro n message heq
        rw [← hiff, h] at heq
        cases heq
      · rintro ⟨hnone, rfl⟩
        obtain ⟨e, he⟩ := (c.exists_error_iff bs).2 fun message h => hnone (.ofList []) message ((hiff _ message).1 h)
        rw [he, error_of_legacy c ha he]
    · intro hne hmod
      have hwhole : Whole bs := ⟨hne, hmod⟩
      obtain ⟨n, hn⟩ := hwhole.length_eq
      rw [hwhole.length_decrypted, hn]
      exact Nat.le_mul_of_pos_right _ (Nat.succ_pos n)
  case gcm =>
    intro ha
    refine ⟨?_, ?_, ?_⟩
    · intro n hn message
      rw [reveal_gcm_iff c ha, protect_gcm c ha, hn]
    · intro other message hnonce hbs hother
      obtain ⟨-, hbs⟩ := (reveal_gcm_iff c ha bs message).1 hbs
      obtain ⟨-, hother⟩ := (reveal_gcm_iff c ha other message).1 hother
      rw [hbs, hother, hnonce]
    · intro e
      constructor
      · intro h
        refine ⟨?_, error_of_gcm c ha h⟩
        rintro n message hn rfl
        rw [hback n message hn] at h
        cases h
      · rintro ⟨hnone, rfl⟩
        obtain ⟨e, he⟩ := (c.exists_error_iff bs).2 fun message h => by
          obtain ⟨hlong, heq⟩ := (reveal_gcm_iff c ha bs message).1 h
          refine hnone (.ofList [bs.take Aes.Gcm.nonceSize]) message ?_ ?_
          · exact List.length_take_of_le hlong
          · rw [protect_gcm c ha]
            exact heq
        rw [he, error_of_gcm c ha he]

end Cipher

end ClientAuth
