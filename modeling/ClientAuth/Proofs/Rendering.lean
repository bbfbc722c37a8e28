import ClientAuth.Manager.Task
import ClientAuth.Proofs.Encoding.KeySizes
import ClientAuth.Proofs.Encoding.Quoted
import ClientAuth.Proofs.Store.FileNames

/-!
# What is told where values are shown

Two values that differ in their secrets only are shown alike. Of a credential the text tells when it was obtained and
the start of two digests, and nothing else (`Credential.shown_eq_iff`); of a response it tells all but the token
(`Enrollment.Response.shown_eq_iff`); and of a manager it tells where the slot stands, but not what is in it, and whether
there is a cipher, but not which (`Manager.shown_eq_iff`). All this is put together in `shown_hides_secrets`.
-/

namespace ClientAuth

namespace Obfuscated

/-- The part of a digest that is shown: its first ten octets. -/
def digestStart (s : String) : Bytes := (Sha256.digest (Utf8.encode s)).take 10

theorem length_digestStart (s : String) : (digestStart s).length = 10 := by
  rw [digestStart, List.length_take, Sha256.length_digest]
  rfl

/-- A text is shown as twenty digits, whatever it is. -/
theorem length_text (s : String) : (text s).toList.length = 20 := by
  change (Hex.encode (digestStart s)).toList.length = 20
  rw [Hex.length_encode, length_digestStart]

/-- Two texts are shown alike if their digests start alike. -/
theorem text_eq_iff {s s' : String} : text s = text s' ↔ digestStart s = digestStart s' :=
  Hex.encode_injective.eq_iff

end Obfuscated

namespace Credential

/-- The text of a credential, in which each part that depends on it stands between fixed ones. -/
theorem toList_shown (c : Credential) :
    c.shown.toList = "Credential \x7b header_value: ".toList ++ (Obfuscated.text c.headerValue).toList ++
      (", obtained_at: ".toList ++ (toString c.obtainedAt.toNat).toList ++ ", identity: Identity(".toList ++
        (Obfuscated.text c.identity.id).toList ++ ") \x7d".toList) := by
  simp [shown, Text.record, Obfuscated.identity, Text.tuple]

/-- The text of a credential tells when it was obtained and how the digests of its header value and of the client
identifier start, and nothing else. -/
theorem shown_eq_iff {c d : Credential} :
    c.shown = d.shown ↔ c.obtainedAt = d.obtainedAt ∧
      Obfuscated.digestStart c.headerValue = Obfuscated.digestStart d.headerValue ∧
      Obfuscated.digestStart c.identity.id = Obfuscated.digestStart d.identity.id := by
  simp only [← Obfuscated.text_eq_iff]
  constructor
  · intro h
    have hlists := congrArg String.toList h
    rw [toList_shown, toList_shown] at hlists
    -- Both digests have a fixed length, so the parts of the two texts stand at the same places, seen from either end.
    obtain ⟨hfront, hback⟩ := List.append_inj hlists (by simp only [List.length_append, Obfuscated.length_text])
    have hheader := List.append_cancel_left hfront
    obtain ⟨hmiddle, hid⟩ := List.append_inj' (List.append_cancel_right hback) (by simp only [Obfuscated.length_text])
    have hdigits := List.append_cancel_left (List.append_cancel_right hmiddle)
    simp only [Nat.toString_eq_ofList_toDigits, String.toList_ofList] at hdigits
    have htime : c.obtainedAt.toNat = d.obtainedAt.toNat := by
      rw [← Nat.ofDigitChars_ten_toDigits (n := c.obtainedAt.toNat), hdigits, Nat.ofDigitChars_ten_toDigits]
    exact ⟨UInt64.toNat_inj.1 htime, String.toList_inj.1 hheader, String.toList_inj.1 hid⟩
  · rintro ⟨htime, hheader, hid⟩
    unfold shown Obfuscated.identity
    rw [htime, hheader, hid]

end Credential

/-- The text of an identity tells all of its claims. -/
theorem Identity.shown_injective : Function.Injective Identity.shown := by
  have htext : ∀ i : Identity, i.shown.toList = "Identity \x7b id: ".toList ++ ((Text.quoted i.id).toList ++
      (", authenticated_by: ".toList ++ ((Text.quoted i.authenticatedBy).toList ++
        (", display_name: ".toList ++ ((Text.quoted i.displayName).toList ++ " \x7d".toList))))) := by
    intro i
    simp [shown, Text.record]
  intro i i' h
  have hlists := congrArg String.toList h
  rw [htext, htext] at hlists
  obtain ⟨hid, hrest⟩ := Text.quoted_append_inj (List.append_cancel_left hlists)
  obtain ⟨hauthority, hrest'⟩ := Text.quoted_append_inj (List.append_cancel_left hrest)
  obtain ⟨hname, -⟩ := Text.quoted_append_inj (List.append_cancel_left hrest')
  cases i
  cases i'
  exact congr (congr (congrArg Identity.mk hid) hauthority) hname

/-- The text of an optional value tells whether there is one, and its text. -/
theorem Text.optional_injective : Function.Injective Text.optional := by
  have hsome : ∀ s : String, (optional (some s)).toList = "Some(".toList ++ (s.toList ++ ")".toList) := by
    intro s
    simp [optional, tuple]
  intro o o' h
  have hlists := congrArg String.toList h
  cases o with
  | none =>
    cases o' with
    | none => rfl
    | some s' =>
      rw [hsome] at hlists
      exact absurd (List.cons.inj hlists).1 (by decide)
  | some s =>
    cases o' with
    | none =>
      rw [hsome] at hlists
      exact absurd (List.cons.inj hlists).1 (by decide)
    | some s' =>
      rw [hsome, hsome] at hlists
      exact congrArg some (String.toList_inj.1 (List.append_cancel_right (List.append_cancel_left hlists)))

/-- The text of a response tells the certificate and the identity, and nothing of the token. -/
theorem Enrollment.Response.shown_eq_iff {r r' : Response} :
    r.shown = r'.shown ↔ r.certificate = r'.certificate ∧ r.identity = r'.identity := by
  have htext : ∀ r : Response, r.shown.toList = "EnrollmentResponse \x7b certificate: ".toList ++
      ((Text.quoted r.certificate).toList ++ (", access_token: \"[REDACTED]\", identity: ".toList ++
        ((Text.optional (r.identity.map Identity.shown)).toList ++ " \x7d".toList))) := by
    intro r
    have hredacted : Text.quoted "[REDACTED]" = "\"[REDACTED]\"" := by decide
    simp [shown, Text.record, hredacted]
  constructor
  · intro h
    have hlists := congrArg String.toList h
    rw [htext, htext] at hlists
    obtain ⟨hcertificate, hrest⟩ := Text.quoted_append_inj (List.append_cancel_left hlists)
    have hidentity := List.append_cancel_right (List.append_cancel_left hrest)
    have hoptional := Text.optional_injective (String.toList_inj.1 hidentity)
    exact ⟨hcertificate, Option.map_injective Identity.shown_injective hoptional⟩
  · rintro ⟨hcertificate, hidentity⟩
    rw [shown, shown, hcertificate, hidentity]

/-- The states of a slot have different names. -/
theorem SlotState.shown_injective : Function.Injective SlotState.shown := by
  intro state state' h
  cases state <;> cases state' <;> first | rfl | exact absurd h (by decide)

/-- A record whose other parts are the same tells what its last part is. -/
theorem Text.record_append_inj {name label part part' : String} (parts : List (String × String)) (hne : parts ≠ [])
    (h : record name (parts ++ [(label, part)]) = record name (parts ++ [(label, part')])) : part = part' := by
  have hshown : parts.map (fun p => p.1 ++ ": " ++ p.2) ≠ [] := by simpa using hne
  have hparts : ∀ last : String, record name (parts ++ [(label, last)]) =
      name ++ " \x7b " ++ (", ".intercalate (parts.map fun p => p.1 ++ ": " ++ p.2) ++ ", " ++ (label ++ ": " ++ last)) ++
        " \x7d" := by
    intro last
    rw [record, List.map_append, List.map_singleton, String.intercalate_append_of_ne_nil hshown (List.cons_ne_nil _ _),
      String.intercalate_singleton]
  rw [hparts, hparts] at h
  simpa using h

/-- The text of a manager tells where the slot stands, and nothing else of the slot, and of the cipher only whether
there is one. -/
theorem Manager.shown_eq_iff {m m' : Manager} {service store : String} {slot slot' : Slot}
    (hconfig : m.config.shown = m'.config.shown) (hdetector : m.detector.shown = m'.detector.shown)
    (hcipher : m.cipher.isSome = m'.cipher.isSome) :
    m.shown service store slot = m'.shown service store slot' ↔ slot.state = slot'.state := by
  have hvault : ∀ vault : String, (m.cipher.map fun _ => vault) = m'.cipher.map fun _ => vault := by
    intro vault
    cases hm : m.cipher <;> cases hm' : m'.cipher <;> simp_all
  have hsame : m.shown service store slot = m'.shown service store slot := by
    simp only [shown, hconfig, hdetector, hvault]
  rw [hsame]
  constructor
  · intro h
    exact SlotState.shown_injective (Text.record_append_inj [_, _, _, _] (List.cons_ne_nil _ _) h)
  · intro h
    simp only [shown, h]

/-- What is shown depends on secrets by the start of their digests at most. Two credentials are shown alike if and only
if they were obtained at the same time and the digests of their header values, and those of their client identifiers,
start with the same ten octets; no other claim counts. Two responses are shown alike if and only if they have the same
certificate and the same identity, whatever their tokens are. And two managers whose configurations, services, detectors
and stores are shown alike have the same text for any two slots, those of any states that they can come to included, if
and only if the slots stand alike: whatever credentials are in them, and whatever the keys of the ciphers. -/
theorem shown_hides_secrets :
    (∀ c d : Credential, c.shown = d.shown ↔ c.obtainedAt = d.obtainedAt ∧
      Obfuscated.digestStart c.headerValue = Obfuscated.digestStart d.headerValue ∧
      Obfuscated.digestStart c.identity.id = Obfuscated.digestStart d.identity.id) ∧
    (∀ r r' : Enrollment.Response, r.shown = r'.shown ↔ r.certificate = r'.certificate ∧ r.identity = r'.identity) ∧
    ∀ (m m' : Manager) (service store : String) (slot slot' : Slot), m.config.shown = m'.config.shown →
      m.detector.shown = m'.detector.shown → m.cipher.isSome = m'.cipher.isSome →
        (m.shown service store slot = m'.shown service store slot' ↔ slot.state = slot'.state) := by
  refine ⟨fun c d => Credential.shown_eq_iff, fun r r' => Enrollment.Response.shown_eq_iff, ?_⟩
  intro m m' service store slot slot' hconfig hdetector hcipher
  exact Manager.shown_eq_iff hconfig hdetector hcipher

/-- A manager with a cipher of a given password. -/
def managerOfPassword (password : String) : Manager where
  config := {}
  detector := .byRule {}
  cipher := some (.ofPassword .aes256Gcm password)

/-- A slot that holds a credential with a given header value. -/
def slotHolding (headerValue : String) : Slot where
  credential := some { headerValue, obtainedAt := 1700000000, identity := .empty }
  inFlight := none
  generation := 1

/-- Two responses that differ in their tokens are shown alike, and so are two managers that differ in the passwords of
their ciphers and in the credentials that they hold. -/
theorem shown_hides_secrets_of_two_passwords :
    ({ certificate := "MIIB", accessToken := "first", identity := none } : Enrollment.Response).shown =
        ({ certificate := "MIIB", accessToken := "second", identity := none } : Enrollment.Response).shown ∧
      (slotHolding "Bearer first").state = (slotHolding "Bearer second").state ∧
      (managerOfPassword "first").shown "Transport" "Store" (slotHolding "Bearer first") =
        (managerOfPassword "second").shown "Transport" "Store" (slotHolding "Bearer second") := by
  have hstate : ∀ headerValue, (slotHolding headerValue).state = .cached := fun _ => rfl
  have hconfig : ∀ password, (managerOfPassword password).config = {} := fun _ => rfl
  have hdetector : ∀ password, (managerOfPassword password).detector = .byRule {} := fun _ => rfl
  have hcipher : ∀ password, (managerOfPassword password).cipher.isSome = true := fun _ => rfl
  have hsame : (slotHolding "Bearer first").state = (slotHolding "Bearer second").state := by rw [hstate, hstate]
  refine ⟨(shown_hides_secrets.2.1 _ _).2 ⟨rfl, rfl⟩, hsame, ?_⟩
  refine (shown_hides_secrets.2.2 (managerOfPassword "first") (managerOfPassword "second") _ _ _ _ ?_ ?_ ?_).2 hsame
  · rw [hconfig, hconfig]
  · rw [hdetector, hdetector]
  · rw [hcipher, hcipher]

end ClientAuth
