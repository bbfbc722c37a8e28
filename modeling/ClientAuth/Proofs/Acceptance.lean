import ClientAuth.Manager.Acceptance
import Mathlib.Data.List.DropRight

/-!
# Which enrollments are accepted

An enrollment is trustworthy if its certificate is valid for the enrolled key at the time, names the client that is
expected and that the service names, and comes with a token. Exactly these are accepted, each for exactly the credential
that its parts make (`accept_eq_ok_iff`).
-/

namespace ClientAuth

open Enrollment (Params Response)

namespace Text

/-- A text is trimmed to nothing exactly when it has nothing but blanks. -/
theorem trim_isEmpty_iff (s : String) : (trim s).isEmpty = true ↔ ∀ c ∈ s.toList, isBlank c = true := by
  have hnil : (trim s).isEmpty = true ↔ (s.toList.dropWhile isBlank).rdropWhile isBlank = [] := by
    rw [String.isEmpty_iff, ← String.toList_inj]
    exact Iff.of_eq (congrArg (· = []) String.toList_ofList)
  rw [hnil, List.rdropWhile_eq_nil_iff]
  constructor
  · intro h
    cases hd : s.toList.dropWhile isBlank with
    | nil => exact List.dropWhile_eq_nil_iff.1 hd
    | cons c rest =>
      have hc := List.head_dropWhile_not isBlank (l := s.toList) (by simp [hd])
      simp only [hd, List.head_cons] at hc
      have hb := h c (by simp [hd])
      rw [hb] at hc
      cases hc
  · exact fun h c hc => h c ((List.dropWhile_suffix isBlank).subset hc)

end Text

/-- What makes an enrollment trustworthy: its certificate can be read, is valid for the enrolled key at the time, and
names a client, which is the expected one if any and the one that the service names if any; and it has a token. -/
structure Trustworthy (config : Config) (p : Params) (r : Response) (now : Instant) (c : Certificate) : Prop where
  decoded : Certificate.decode r.certificate = .ok c
  valid : c.isValidAgainst p.publicKey now = true
  named : c.clientId config.uidSelection ≠ ""
  expected : ∀ id, p.clientId = some id → id = c.clientId config.uidSelection
  claimed : ∀ claim, r.identity = some claim → claim.id = "" ∨ claim.id = c.clientId config.uidSelection
  token : ∃ ch ∈ r.accessToken.toList, Text.isBlank ch = false

/-- The name that the service gives to a client that it names. -/
def claimedName : Option Identity → String
  | some claim => if claim.id = "" then "" else claim.displayName
  | none => ""

/-- The identity that an enrollment makes: the client of the certificate, its issuer's common name or else the whole
issuer, and its subject's common name or else, if that is absent or empty, the name that the service gives. -/
def Identity.ofEnrollment (config : Config) (r : Response) (c : Certificate) : Identity where
  id := c.clientId config.uidSelection
  authenticatedBy :=
    match c.issuer.commonName? with
    | some name => name
    | none => c.issuer.render
  displayName :=
    match c.subject.commonName? with
    | some name => if name = "" then claimedName r.identity else name
    | none => claimedName r.identity

/-- The credential that an enrollment makes: the scheme, a space and the trimmed token, or the trimmed token alone if
the scheme is empty; the whole seconds of the time; and the identity. -/
def Credential.ofEnrollment (config : Config) (r : Response) (now : Instant) (c : Certificate) : Credential where
  headerValue :=
    if config.headerScheme = "" then Text.trim r.accessToken
    else config.headerScheme ++ " " ++ Text.trim r.accessToken
  obtainedAt := now.secs.toUInt64
  identity := Identity.ofEnrollment config r c

/-- A claim of the service is taken up exactly if it names no client or the certified one. -/
theorem Identity.reconcile_eq_ok_iff (certified i : Identity) (claim? : Option Identity) :
    certified.reconcile claim? = .ok i ↔
      (∀ claim, claim? = some claim → claim.id = "" ∨ claim.id = certified.id) ∧
      (if certified.displayName = "" then { certified with displayName := claimedName claim? } else certified) = i := by
  obtain ⟨id, vouch, name⟩ := certified
  cases claim? with
  | none =>
    by_cases hn : name = ""
    · simp [reconcile, claimedName, hn]
    · simp [reconcile, hn]
  | some claim =>
    by_cases ha : claim.id = ""
    · by_cases hn : name = ""
      · simp [reconcile, claimedName, isAnonymous, ha, hn]
      · simp [reconcile, isAnonymous, ha, hn]
    · by_cases hi : claim.id = id
      · by_cases hn : name = ""
        · simp [reconcile, claimedName, isAnonymous, ← hi, ha, hn]
        · simp [reconcile, isAnonymous, ← hi, ha, hn]
      · simp [reconcile, isAnonymous, ha, hi]

/-- A certificate identifies a client exactly if it is valid and names one, as expected, and no claim is against it. -/
theorem Certificate.identify_eq_ok_iff (c : Certificate) (selection : UidSelection) (p : Params)
    (claim? : Option Identity) (now : Instant) (i : Identity) : c.identify selection p claim? now = .ok i ↔
      c.isValidAgainst p.publicKey now = true ∧ c.clientId selection ≠ "" ∧
      (∀ id, p.clientId = some id → id = c.clientId selection) ∧
      (Identity.ofCertificate c selection).reconcile claim? = .ok i := by
  have hid : (Identity.ofCertificate c selection).id = c.clientId selection := rfl
  unfold Certificate.identify
  by_cases hv : c.isValidAgainst p.publicKey now = true
  · by_cases hn : c.clientId selection = ""
    · simp [hv, hn, hid, Identity.isAnonymous]
    · cases hp : p.clientId with
      | none => simp [hv, hn, hid, Identity.isAnonymous]
      | some id =>
        by_cases hi : id = c.clientId selection
        · simp [hv, hn, hid, Identity.isAnonymous, hi]
        · simp [hv, hn, hid, Identity.isAnonymous, hi]
  · simp [hv]

/-- The identity of a certificate, with the name that the service gives where it has none. -/
theorem Identity.ofEnrollment_eq (config : Config) (r : Response) (c : Certificate) :
    (if (Identity.ofCertificate c config.uidSelection).displayName = "" then
      { Identity.ofCertificate c config.uidSelection with displayName := claimedName r.identity }
    else Identity.ofCertificate c config.uidSelection) = Identity.ofEnrollment config r c := by
  unfold Identity.ofCertificate Identity.ofEnrollment
  cases c.issuer.commonName? <;> cases c.subject.commonName? with
  | none => simp
  | some name =>
    by_cases hn : name = ""
    · simp [hn]
    · simp [hn]

/-- A valid certificate is looked at in whole seconds since the start of 1970. -/
theorem Certificate.sinceEpoch?_of_valid {c : Certificate} {key : Bytes} {now : Instant}
    (h : c.isValidAgainst key now = true) : now.sinceEpoch? = some now.secs.toUInt64 ∧ 0 ≤ now.secs := by
  unfold Certificate.isValidAgainst at h
  cases hs : now.sinceEpoch? with
  | none =>
    rw [hs] at h
    cases h
  | some s =>
    unfold Instant.sinceEpoch? at hs
    split at hs
    · cases hs
    · rename_i hneg
      exact ⟨hs.symm, Int64.not_lt.1 hneg⟩

/-- A trustworthy enrollment is dated by the whole seconds since the start of 1970, which is not yet to come. -/
theorem Trustworthy.obtainedAt {config : Config} {p : Params} {r : Response} {now : Instant} {c : Certificate}
    (h : Trustworthy config p r now c) :
    ((Credential.ofEnrollment config r now c).obtainedAt.toNat : Int) = now.secs.toInt := by
  have hpos := (Certificate.sinceEpoch?_of_valid h.valid).2
  unfold Credential.ofEnrollment
  rw [Int64.toNat_toUInt64_of_le hpos, Int64.cast_toNatClampNeg _ hpos]

theorem mapError_ok {ε ε' α : Type} (f : ε → ε') (a : α) : (Except.ok a).mapError f = .ok a := rfl

theorem mapError_error {ε ε' α : Type} (f : ε → ε') (e : ε) :
    (Except.error e : Except ε α).mapError f = .error (f e) := rfl

namespace Config

variable {config : Config} {p : Params} {r : Response} {now : Instant}

/-- A certificate that cannot be read is not accepted. -/
theorem accept_of_decode_error {e : Certificate.Error} (hd : Certificate.decode r.certificate = .error e) :
    config.accept p r now = .error (.certificate e) := by
  unfold Config.accept
  rw [hd]
  rfl

/-- A certificate that identifies no client is not accepted. -/
theorem accept_of_identify_error {c : Certificate} {e : Rejection} (hd : Certificate.decode r.certificate = .ok c)
    (hi : c.identify config.uidSelection p r.identity now = .error e) :
    config.accept p r now = .error (.rejected e) := by
  unfold Config.accept
  rw [hd]
  simp only [mapError_ok, mapError_error, bind, Except.bind, hi]

/-- The certificate of a client is accepted unless the token is blank. -/
theorem accept_of_identified {c : Certificate} {i : Identity} (hd : Certificate.decode r.certificate = .ok c)
    (hi : c.identify config.uidSelection p r.identity now = .ok i) :
    config.accept p r now =
      if (Text.trim r.accessToken).isEmpty then .error (.rejected .emptyToken)
      else .ok ⟨config.headerValue (Text.trim r.accessToken), now.sinceEpoch?.getD 0, i⟩ := by
  unfold Config.accept
  rw [hd]
  simp only [mapError_ok, bind, Except.bind, hi]
  rfl

/-- An enrollment that is not accepted has a certificate that cannot be read, or is rejected. -/
theorem accept_error_cases {e : AuthError} (h : config.accept p r now = .error e) :
    (∃ cause, e = .certificate cause) ∨ ∃ reason, e = .rejected reason := by
  cases hd : Certificate.decode r.certificate with
  | error cause =>
    rw [accept_of_decode_error hd] at h
    exact Or.inl ⟨cause, (Except.error.inj h).symm⟩
  | ok c =>
    cases hi : c.identify config.uidSelection p r.identity now with
    | error reason =>
      rw [accept_of_identify_error hd hi] at h
      exact Or.inr ⟨reason, (Except.error.inj h).symm⟩
    | ok i =>
      rw [accept_of_identified hd hi] at h
      split at h
      · exact Or.inr ⟨.emptyToken, (Except.error.inj h).symm⟩
      · cases h

/-- Accepting an enrollment never fails as cancelled. -/
theorem accept_ne_cancelled (config : Config) (p : Params) (r : Response) (now : Instant) :
    config.accept p r now ≠ .error .cancelled := by
  intro h
  rcases accept_error_cases h with ⟨cause, he⟩ | ⟨reason, he⟩ <;> cases he

/-- Exactly the trustworthy enrollments are accepted, each for exactly its credential. -/
theorem accept_eq_ok_iff (config : Config) (p : Params) (r : Response) (now : Instant) (cred : Credential) :
    config.accept p r now = .ok cred ↔
      ∃ c, Trustworthy config p r now c ∧ cred = Credential.ofEnrollment config r now c := by
  cases hd : Certificate.decode r.certificate with
  | error e =>
    rw [accept_of_decode_error hd]
    refine iff_of_false (by simp) ?_
    rintro ⟨c, ht, -⟩
    cases hd.symm.trans ht.decoded
  | ok c =>
    have hc : ∀ c', Trustworthy config p r now c' → c' = c := fun c' ht => Except.ok.inj (ht.decoded.symm.trans hd)
    cases hi : c.identify config.uidSelection p r.identity now with
    | error e =>
      rw [accept_of_identify_error hd hi]
      refine iff_of_false (by simp) ?_
      rintro ⟨c', ht, -⟩
      obtain rfl := hc c' ht
      have hok := (Certificate.identify_eq_ok_iff c' config.uidSelection p r.identity now _).2
        ⟨ht.valid, ht.named, ht.expected, (Identity.reconcile_eq_ok_iff _ _ _).2 ⟨ht.claimed, rfl⟩⟩
      cases hi.symm.trans hok
    | ok i =>
      obtain ⟨hv, hn, he, hr⟩ := (Certificate.identify_eq_ok_iff c config.uidSelection p r.identity now i).1 hi
      obtain ⟨hclaim, hident⟩ := (Identity.reconcile_eq_ok_iff _ _ _).1 hr
      rw [Identity.ofEnrollment_eq] at hident
      have hmade : (⟨config.headerValue (Text.trim r.accessToken), now.sinceEpoch?.getD 0, i⟩ : Credential) =
          Credential.ofEnrollment config r now c := by
        rw [(Certificate.sinceEpoch?_of_valid hv).1, ← hident]
        simp [Credential.ofEnrollment, Config.headerValue]
      rw [accept_of_identified hd hi, hmade]
      split
      · rename_i hblank
        refine iff_of_false (by simp) ?_
        rintro ⟨c', ht, -⟩
        obtain ⟨ch, hmem, hch⟩ := ht.token
        cases hch.symm.trans ((Text.trim_isEmpty_iff _).1 hblank ch hmem)
      · rename_i hblank
        have htoken : ∃ ch ∈ r.accessToken.toList, Text.isBlank ch = false := by
          rw [Text.trim_isEmpty_iff] at hblank
          simpa using hblank
        constructor
        · intro h
          exact ⟨c, ⟨hd, hv, hn, he, hclaim, htoken⟩, (Except.ok.inj h).symm⟩
        · rintro ⟨c', ht, rfl⟩
          rw [hc c' ht]

/-- The certificate of a client `a` for the first day of the epoch is accepted when that begins. -/
theorem accept_client :
    accept {} { publicKey := [4] }
      ⟨"MFswTgIBATAFBgMqAwQwADAeFw03MDAxMDEwMDAwMDBaFw03MDAxMDIwMDAwMDBaMBMxETAPBgoJkiaJk/IsZAEBDAFhMAswBQYDKgMEAwIABDAFBgMqAwQDAgAB", "t", none⟩
      ⟨0, 0⟩ = .ok ⟨"Bearer t", 0, ⟨"a", "", ""⟩⟩ := by
  decide +kernel

end Config

end ClientAuth
