import ClientAuth.Proofs.Encoding.Canonical
import ClientAuth.Proofs.Encoding.Opening

/-!
# Envelopes are faithful and unambiguous

An envelope seals octets if, but for blanks around it, it is the base64 text of what the cipher protects these octets as,
with some nonce (`Cipher.Seals`). An envelope is opened to exactly the octets that it seals (`Cipher.disclose_eq_ok_iff`),
so to a text if it seals the octets of that text, and to nothing if it seals other octets.
-/

namespace ClientAuth.Cipher

variable (c : Cipher)

/-- Octets are revealed exactly of what they are protected as with some nonce. -/
theorem reveal_eq_ok_iff (bs message : Bytes) :
    c.reveal bs = .ok message ↔
      ∃ nonce : Bytes, nonce.length = Aes.Gcm.nonceSize ∧ bs = c.protectWith nonce message := by
  constructor
  · intro h
    cases ha : c.algorithm with
    | legacyAes128Ecb =>
      refine ⟨List.replicate Aes.Gcm.nonceSize 0, List.length_replicate, ?_⟩
      simp only [protectWith, ha]
      exact (c.reveal_legacy_iff ha bs message).1 h
    | aes256Gcm =>
      obtain ⟨hlong, heq⟩ := (c.reveal_gcm_iff ha bs message).1 h
      refine ⟨bs.take Aes.Gcm.nonceSize, List.length_take_of_le hlong, ?_⟩
      simp only [protectWith, ha]
      exact heq
  · rintro ⟨nonce, hnonce, rfl⟩
    exact c.reveal_protectWith hnonce message

/-- An envelope of octets: the base64 text of what they are protected as with some nonce, and blanks around it. -/
def Seals (envelope : String) (message : Bytes) : Prop :=
  ∃ (nonce : Bytes) (before after : String), nonce.length = Aes.Gcm.nonceSize ∧
    Text.isBlankText before = true ∧ Text.isBlankText after = true ∧
    envelope = before ++ Base64.encode Base64.standard (c.protectWith nonce message) ++ after

/-- What is enclosed is sealed, also with blanks around it. -/
theorem seals_enclose {n : Nonces} (hn : n.next.length = Aes.Gcm.nonceSize) {before after : String}
    (hbefore : Text.isBlankText before = true) (hafter : Text.isBlankText after = true) (message : Bytes) :
    c.Seals (before ++ (c.enclose n message).1 ++ after) message :=
  ⟨n.next, before, after, hn, hbefore, hafter, rfl⟩

/-- An envelope is opened to exactly the octets that it seals. -/
theorem disclose_eq_ok_iff (envelope : String) (message : Bytes) :
    c.disclose envelope = .ok message ↔ c.Seals envelope message := by
  constructor
  · intro h
    obtain ⟨sealed, hsealed, hreveal⟩ := bind_eq_ok_iff.1 h
    obtain ⟨nonce, hnonce, rfl⟩ := (c.reveal_eq_ok_iff sealed message).1 hreveal
    have htrim := (Base64.decode_eq_ok_iff _ _).1 (mapError_eq_ok_iff.1 hsealed)
    obtain ⟨before, after, hbefore, hafter, heq⟩ := Text.exists_blanks_around envelope
    rw [htrim] at heq
    exact ⟨nonce, before, after, hnonce, hbefore, hafter, heq⟩
  · rintro ⟨nonce, before, after, hnonce, hbefore, hafter, rfl⟩
    have hvisible : ∀ ch ∈ (Base64.encode Base64.standard (c.protectWith nonce message)).toList,
        Text.isBlank ch = false := fun _ => Base64.not_isBlank_of_mem_encode
    rw [disclose, Text.trim_around hbefore hafter hvisible, Base64.decode_encode]
    exact c.reveal_protectWith hnonce message

/-- An envelope is opened to exactly the text whose octets it seals. -/
theorem discloseText_eq_ok_iff (envelope text : String) :
    c.discloseText envelope = .ok text ↔ c.Seals envelope (Utf8.encode text) := by
  rw [← disclose_eq_ok_iff]
  constructor
  · intro h
    obtain ⟨message, hmessage, h⟩ := bind_eq_ok_iff.1 h
    obtain rfl := (Utf8.decode_eq_ok_iff message text).1 (mapError_eq_ok_iff.1 h)
    exact hmessage
  · intro h
    rw [discloseText, h]
    simp only [bind, Except.bind, Utf8.decode_encode]
    rfl

/-- Nothing is revealed of no octets. -/
theorem exists_error_of_nil : ∃ e, c.reveal [] = .error e := by
  cases ha : c.algorithm with
  | legacyAes128Ecb => exact ⟨_, c.reveal_of_not_whole ha fun h => h.1 rfl⟩
  | aes256Gcm =>
    refine ⟨.notAuthentic, ?_⟩
    simp only [reveal, ha]
    exact if_pos (by decide)

/-- A blank text is no envelope. -/
theorem discloseText_of_isBlankText {envelope : String} (h : Text.isBlankText envelope = true) :
    ∃ e, c.discloseText envelope = .error e := by
  obtain ⟨e, he⟩ := c.exists_error_of_nil
  refine ⟨e, ?_⟩
  have hnil : Base64.decode Base64.standard "" = .ok [] := rfl
  rw [discloseText, disclose, Text.trim_of_isBlankText h, hnil]
  simp only [Except.mapError, bind, Except.bind, he]

/-- Text envelopes are faithful and unambiguous. An envelope is opened to a text exactly if it seals the octets of that
text, so that a text comes back out of the envelope that it was put into, whichever nonce was drawn and whatever blanks
stand around. The empty text comes only out of an envelope that seals no octets, and a blank text is no envelope. Two
envelopes of the same sealed octets differ only in the blanks around them. An envelope that seals octets which are no text
gives these octets, but as a text it is refused for that reason. -/
theorem envelopes_faithful :
    (∀ envelope text : String, c.discloseText envelope = .ok text ↔ c.Seals envelope (Utf8.encode text)) ∧
    (∀ (n : Nonces) (text before after : String), n.next.length = Aes.Gcm.nonceSize →
      Text.isBlankText before = true → Text.isBlankText after = true →
        c.discloseText (before ++ (c.encloseText n text).1 ++ after) = .ok text) ∧
    (∀ envelope : String, (c.discloseText envelope = .ok "" ↔ c.Seals envelope []) ∧
      (Text.isBlankText envelope = true → ∃ e, c.discloseText envelope = .error e)) ∧
    (∀ (envelope other : String) (sealed : Bytes),
      Base64.decode Base64.standard (Text.trim envelope) = .ok sealed →
      Base64.decode Base64.standard (Text.trim other) = .ok sealed →
        ∃ core before after before' after' : String,
          (∀ s ∈ [before, after, before', after'], Text.isBlankText s = true) ∧
          envelope = before ++ core ++ after ∧ other = before' ++ core ++ after') ∧
    (∀ (envelope : String) (message : Bytes), c.Seals envelope message → (∀ text, message ≠ Utf8.encode text) →
      c.disclose envelope = .ok message ∧
        ∃ cause, Utf8.decode message = .error cause ∧ c.discloseText envelope = .error (.plaintextNotUtf8 cause)) := by
  refine ⟨c.discloseText_eq_ok_iff, ?back, ?empty, ?same, ?foreign⟩
  case back =>
    intro n text before after hn hbefore hafter
    exact (c.discloseText_eq_ok_iff _ _).2 (c.seals_enclose hn hbefore hafter (Utf8.encode text))
  case empty =>
    intro envelope
    exact ⟨c.discloseText_eq_ok_iff envelope "", c.discloseText_of_isBlankText⟩
  case same =>
    intro envelope other sealed henvelope hother
    obtain ⟨before, after, hbefore, hafter, heq⟩ := Text.exists_blanks_around envelope
    obtain ⟨before', after', hbefore', hafter', heq'⟩ := Text.exists_blanks_around other
    rw [(Base64.decode_eq_ok_iff _ _).1 henvelope] at heq
    rw [(Base64.decode_eq_ok_iff _ _).1 hother] at heq'
    refine ⟨Base64.encode Base64.standard sealed, before, after, before', after', ?_, heq, heq'⟩
    simp [hbefore, hafter, hbefore', hafter']
  case foreign =>
    intro envelope message hseals hforeign
    have hopen := (c.disclose_eq_ok_iff envelope message).2 hseals
    refine ⟨hopen, ?_⟩
    cases hdecode : Utf8.decode message with
    | ok text => exact absurd ((Utf8.decode_eq_ok_iff message text).1 hdecode) (hforeign text)
    | error cause =>
      refine ⟨cause, rfl, ?_⟩
      rw [discloseText, hopen]
      simp only [bind, Except.bind, hdecode]
      rfl

end ClientAuth.Cipher
