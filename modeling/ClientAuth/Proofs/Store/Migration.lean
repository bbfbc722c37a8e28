import ClientAuth.Proofs.Store.Rekeying
import ClientAuth.Session.World

/-!
# Migrating an entry to another cipher

`Vault.rekey` ends in one of four ways, after what the two ciphers make of the entry: it leaves one that is settled
(`Vault.rekey_of_settled`), refuses one that neither cipher opens (`Vault.rekey_of_refused`), and replaces an outdated one by
an envelope of the same message (`Vault.rekey_of_saved`), unless the store fails. No message is lost in this, whatever fails
(`Vault.rekey_migrates`).
-/

namespace ClientAuth

open Json (Codec)

namespace Backing

variable {σ : Type} {b : Backing σ} {view : σ → String → Option String}

/-- A store that behaves as the map of what it shows under keys, except that its operations may fail. One that fails
changes nothing. -/
structure IsFallibleMap (b : Backing σ) (view : σ → String → Option String) : Prop where
  load : ∀ s key entry, b.load s key = .ok entry → view s key = entry
  save : ∀ s key blob, (b.save s key blob).1 = .ok () →
    view (b.save s key blob).2 = Function.update (view s) key (some blob)
  save_error : ∀ s key blob e, (b.save s key blob).1 = .error e → (b.save s key blob).2 = s
  remove : ∀ s key, (b.remove s key).1 = .ok () → view (b.remove s key).2 = Function.update (view s) key none
  remove_error : ∀ s key e, (b.remove s key).1 = .error e → (b.remove s key).2 = s

/-- A map is one whose operations never fail. -/
theorem IsMap.fallible (h : b.IsMap view) : b.IsFallibleMap view := by
  refine ⟨?load, fun s key blob _ => (h.save s key blob).2, ?save_error, fun s key _ => (h.remove s key).2, ?remove_error⟩
  case load => exact fun s key entry hload => Except.ok.inj ((h.load s key).symm.trans hload)
  case save_error =>
    intro s key blob e hsave
    cases hsave.symm.trans (h.save s key blob).1
  case remove_error =>
    intro s key e hremove
    cases hremove.symm.trans (h.remove s key).1

/-- A map that may fail stays one when some of its operations are made to fail. -/
theorem IsFallibleMap.failing (h : b.IsFallibleMap view) (f : Faults) : (b.failing f).IsFallibleMap view := by
  refine ⟨fun s key entry hload => h.load s key entry (load_of_failing hload), ?save, ?save_error, ?remove, ?remove_error⟩
  case save =>
    intro s key blob hsave
    rcases b.failing_save_cases f s key blob with he | ⟨e, he⟩
    · rw [he] at hsave ⊢
      exact h.save s key blob hsave
    · rw [he] at hsave
      cases hsave
  case save_error =>
    intro s key blob e hsave
    rcases b.failing_save_cases f s key blob with he | ⟨e', he⟩
    · rw [he] at hsave ⊢
      exact h.save_error s key blob e hsave
    · rw [he]
  case remove =>
    intro s key hremove
    rcases b.failing_remove_cases f s key with he | ⟨e, he⟩
    · rw [he] at hremove ⊢
      exact h.remove s key hremove
    · rw [he] at hremove
      cases hremove
  case remove_error =>
    intro s key e hremove
    rcases b.failing_remove_cases f s key with he | ⟨e', he⟩
    · rw [he] at hremove ⊢
      exact h.remove_error s key e hremove
    · rw [he]

/-- A map of which some operations are made to fail. -/
theorem IsMap.fallible_failing (h : b.IsMap view) (f : Faults) : (b.failing f).IsFallibleMap view :=
  h.fallible.failing f

end Backing

/-- There is no entry, or the cipher opens it. -/
def Cipher.Settled (c : Cipher) (entry : Option String) : Prop :=
  ∀ envelope, entry = some envelope → ∃ message, c.disclose envelope = .ok message

namespace Cipher

variable {c : Cipher}

theorem settled_none : c.Settled none := fun _ h => by cases h

theorem settled_some {envelope : String} {message : Bytes} (h : c.disclose envelope = .ok message) :
    c.Settled (some envelope) := by
  rintro _ ⟨⟩
  exact ⟨message, h⟩

/-- A settled entry is to be kept. -/
theorem Settled.decide {entry : Option String} (h : c.Settled entry) (previous : Cipher) (n : Nonces) :
    Rekey.decide c previous n entry = (.keep, n) := by
  cases entry with
  | none => rfl
  | some envelope =>
    obtain ⟨message, hmessage⟩ := h envelope rfl
    unfold Rekey.decide
    simp only [hmessage]

end Cipher

/-- An entry that neither cipher opens is not to be replaced. -/
theorem Rekey.decide_of_refused {current previous : Cipher} {n : Nonces} {envelope : String} {e e' : VaultError}
    (hcurrent : current.disclose envelope = .error e) (hprevious : previous.disclose envelope = .error e') :
    decide current previous n (some envelope) = (.fail e', n) := by
  unfold decide
  simp only [hcurrent, hprevious]

namespace Vault

variable {σ α : Type} {v : Vault σ} {previous : Cipher} {key : String} {s : σ} {n : Nonces} {entry : Option String}

/-- An entry that cannot be loaded is not protected anew. -/
theorem rekey_of_load_error {e : VaultError} (hload : v.backing.load s key = .error e) :
    v.rekey previous s n key = (.error e, s, n, []) := by
  simp only [rekey, hload]

/-- A settled entry is left as it is. -/
theorem rekey_of_settled (hload : v.backing.load s key = .ok entry) (h : v.cipher.Settled entry) :
    v.rekey previous s n key = (.ok false, s, n, []) := by
  simp only [rekey, hload, h.decide]

/-- An entry that neither cipher opens is left as it is, and the previous cipher tells why. -/
theorem rekey_of_refused {envelope : String} {e e' : VaultError}
    (hload : v.backing.load s key = .ok (some envelope)) (hown : v.cipher.disclose envelope = .error e)
    (hprevious : previous.disclose envelope = .error e') : v.rekey previous s n key = (.error e', s, n, []) := by
  simp only [rekey, hload, Rekey.decide_of_refused hown hprevious]

section Replaced

variable {message : Bytes} (hload : v.backing.load s key = .ok entry)
  (h : v.cipher.Outdated previous entry message)
include hload h

/-- An outdated entry is replaced by an envelope of its message. -/
theorem rekey_of_saved {s' : σ}
    (hsave : v.backing.save s key (v.cipher.enclose n message).1 = (.ok (), s')) :
    v.rekey previous s n key =
      (.ok true, s', (v.cipher.enclose n message).2, [.rekeyed key previous.algorithm v.cipher.algorithm]) := by
  simp only [rekey, hload, Rekey.decide_of_outdated h, hsave]

/-- An outdated entry whose replacement cannot be saved. -/
theorem rekey_of_save_error {e : VaultError} {s' : σ}
    (hsave : v.backing.save s key (v.cipher.enclose n message).1 = (.error e, s')) :
    v.rekey previous s n key = (.error e, s', (v.cipher.enclose n message).2, []) := by
  simp only [rekey, hload, Rekey.decide_of_outdated h, hsave]

end Replaced

/-- What a load gives depends only on the message that the entry opens to. -/
theorem load_of_disclose {w : Vault σ} {s' : σ} {envelope envelope' : String} {r : Except VaultError Bytes}
    (hload : v.backing.load s key = .ok (some envelope)) (hopen : v.cipher.disclose envelope = r)
    (hload' : w.backing.load s' key = .ok (some envelope')) (hopen' : w.cipher.disclose envelope' = r)
    (codec : Codec α) : v.load codec s key = w.load codec s' key := by
  simp only [load, hload, hload', Cipher.discloseValue, hopen, hopen', bind, Except.bind]

variable {view : σ → String → Option String} (hb : v.backing.IsFallibleMap view)
include hb

/-- A rekeying that fails leaves the store as it was. -/
theorem store_of_rekey_error {e : VaultError} (h : (v.rekey previous s n key).1 = .error e) :
    (v.rekey previous s n key).2.1 = s := by
  cases hload : v.backing.load s key with
  | error e' => rw [rekey_of_load_error hload]
  | ok entry =>
    by_cases houtdated : ∃ message, v.cipher.Outdated previous entry message
    · obtain ⟨message, hmessage⟩ := houtdated
      obtain ⟨⟨r, s'⟩, hsave⟩ : ∃ q, v.backing.save s key (v.cipher.enclose n message).1 = q := ⟨_, rfl⟩
      cases r with
      | ok u =>
        rw [rekey_of_saved hload hmessage hsave] at h
        cases h
      | error e' =>
        rw [rekey_of_save_error hload hmessage hsave]
        have hkept := hb.save_error s key (v.cipher.enclose n message).1 e' (congrArg Prod.fst hsave)
        rwa [hsave] at hkept
    · have hnone : ∀ message, ¬v.cipher.Outdated previous entry message := fun message hmessage =>
        houtdated ⟨message, hmessage⟩
      obtain ⟨answer, n', hloaded⟩ := rekeyStep_loading_of_not_outdated hload n hnone
      exact (congrArg (·.2.1) (rekeyStep_of_loaded hloaded)).symm

/-- The entry of a key that was saved is settled, and so it stays, whatever cipher is tried on it next. -/
theorem rekey_of_enclosed (hn : n.Sized) {message : Bytes} (hview : view s key = some (v.cipher.enclose n message).1)
    (n' : Nonces) :
    (∀ entry, v.backing.load s key = .ok entry → (v.rekey previous s n' key).1 = .ok false) ∧
      (v.rekey previous s n' key).2.1 = s := by
  cases hload : v.backing.load s key with
  | error e =>
    rw [rekey_of_load_error hload]
    exact ⟨fun entry h => (by cases h), rfl⟩
  | ok entry =>
    have hentry := hb.load s key entry hload
    rw [hview] at hentry
    subst hentry
    rw [rekey_of_settled hload (Cipher.settled_some (v.cipher.disclose_enclose hn message))]
    exact ⟨fun _ _ => rfl, rfl⟩

omit hb in
/-- A rekeying ends in one of four ways, after what it finds under its key. It leaves the store if there is no entry, or if
its own cipher opens the entry; it refuses an entry that neither cipher opens, with the error of the previous one. If the
previous cipher alone opens the entry, to a message, and the store saves, then its own cipher opens the new entry to that
very message. A load then gives what it gave under the previous cipher; all other keys are as they were; and to protect the
entry once more, whatever cipher comes before, changes nothing. A rekeying that fails, even because of the store, leaves the
store as it was. -/
theorem rekey_migrates {b : Backing σ} (hb : b.IsFallibleMap view) (own previous : Cipher) (key : String) (s : σ)
    {n : Nonces} (hn : n.Sized) :
    let v : Vault σ := ⟨b, own⟩
    let out := v.rekey previous s n key
    (∀ e, out.1 = .error e → out.2.1 = s) ∧
    (∀ e, b.load s key = .error e → out.1 = .error e) ∧
    (b.load s key = .ok none → out.1 = .ok false ∧ out.2.1 = s) ∧
    ∀ envelope, b.load s key = .ok (some envelope) →
      (∀ message, own.disclose envelope = .ok message → out.1 = .ok false ∧ out.2.1 = s) ∧
      (∀ e e', own.disclose envelope = .error e → previous.disclose envelope = .error e' → out.1 = .error e') ∧
      ∀ e message, own.disclose envelope = .error e → previous.disclose envelope = .ok message →
        let saved := (b.save s key (own.enclose n message).1).1
        (∀ e', saved = .error e' → out.1 = .error e') ∧
        (saved = .ok () →
          out.1 = .ok true ∧
          (∃ envelope', view out.2.1 key = some envelope' ∧ own.disclose envelope' = .ok message) ∧
          (∀ other, other ≠ key → view out.2.1 other = view s other) ∧
          (∀ entry, b.load out.2.1 key = .ok entry →
            (∀ {α : Type} (codec : Codec α), v.load codec out.2.1 key = Vault.load ⟨b, previous⟩ codec s key) ∧
            ∀ again n', (v.rekey again out.2.1 n' key).1 = .ok false) ∧
          ∀ again n', (v.rekey again out.2.1 n' key).2.1 = out.2.1) := by
  intro v out
  refine ⟨fun e => store_of_rekey_error hb, ?unloaded, ?missing, ?found⟩
  case unloaded =>
    intro e hload
    exact congrArg Prod.fst (rekey_of_load_error (v := v) hload)
  case missing =>
    intro hload
    have hout : out = _ := rekey_of_settled (v := v) hload Cipher.settled_none
    rw [hout]
    exact ⟨rfl, rfl⟩
  case found =>
    intro envelope hload
    refine ⟨?settled, ?refused, ?outdated⟩
    case settled =>
      intro message hown
      have hout : out = _ := rekey_of_settled (v := v) hload (Cipher.settled_some hown)
      rw [hout]
      exact ⟨rfl, rfl⟩
    case refused =>
      intro e e' hown hprevious
      exact congrArg Prod.fst (rekey_of_refused (v := v) hload hown hprevious)
    case outdated =>
      intro e message hown hprevious saved
      have houtdated : own.Outdated previous (some envelope) message := ⟨envelope, rfl, ⟨e, hown⟩, hprevious⟩
      obtain ⟨⟨r, s'⟩, hsave⟩ : ∃ q, b.save s key (own.enclose n message).1 = q := ⟨_, rfl⟩
      refine ⟨?unsaved, ?saved⟩
      case unsaved =>
        intro e' hsaved
        obtain rfl : r = .error e' := (congrArg Prod.fst hsave).symm.trans hsaved
        exact congrArg Prod.fst (rekey_of_save_error (v := v) hload houtdated hsave)
      case saved =>
        intro hsaved
        obtain rfl : r = .ok () := (congrArg Prod.fst hsave).symm.trans hsaved
        have hout : out = _ := rekey_of_saved (v := v) hload houtdated hsave
        have hview : view s' = Function.update (view s) key (some (own.enclose n message).1) := by
          have h := hb.save s key (own.enclose n message).1 hsaved
          rwa [hsave] at h
        have hentry : view s' key = some (own.enclose n message).1 := by rw [hview, Function.update_self]
        have hopen : own.disclose (own.enclose n message).1 = .ok message := own.disclose_enclose hn message
        rw [hout]
        refine ⟨rfl, ⟨_, hentry, hopen⟩, ?others, ?reloaded, fun again n' =>
          (rekey_of_enclosed (v := v) hb hn hentry n').2⟩
        case others =>
          intro other hother
          rw [hview, Function.update_of_ne hother]
        case reloaded =>
          intro entry hreload
          refine ⟨fun codec => ?_, fun again n' => (rekey_of_enclosed (v := v) hb hn hentry n').1 entry hreload⟩
          obtain rfl := (hb.load s' key entry hreload).symm.trans hentry
          exact load_of_disclose (v := v) (w := ⟨b, previous⟩) hreload hopen hload hprevious codec

omit hb in
/-- What the legacy cipher protects is protected by the authenticated one after a rekeying. If that cannot be saved, it is
as it was. -/
theorem rekey_migrates_legacy :
    let own : Cipher := .ofPassword .aes256Gcm "password"
    let previous : Cipher := .ofPassword .legacyAes128Ecb "password"
    let message : Bytes := Utf8.encode "secret"
    let s := Entries.empty.insert "current" (previous.enclose (.ofList []) message).1
    let full : VaultError := .misuse "full"
    let saved := Vault.rekey ⟨Backing.memory.failing {}, own⟩ previous s (.ofList []) "current"
    let unsaved := Vault.rekey ⟨Backing.memory.failing { save := some full }, own⟩ previous s (.ofList []) "current"
    (saved.1 = .ok true ∧ ∃ envelope, saved.2.1.get? "current" = some envelope ∧ own.disclose envelope = .ok message) ∧
      unsaved.1 = .error full ∧ unsaved.2.1 = s := by
  intro own previous message s full saved unsaved
  have hgcm : own.algorithm = .aes256Gcm := rfl
  have hlegacy : previous.algorithm = .legacyAes128Ecb := rfl
  clear_value own previous
  obtain ⟨envelope, henvelope, ⟨e, hown⟩, hprevious⟩ :
      own.Outdated previous (some (previous.enclose (.ofList []) message).1) message :=
    Cipher.outdated_of_legacy hgcm hlegacy Nonces.sized_ofList_nil (by decide)
  have hentry : s.get? "current" = some envelope :=
    (Entries.get?_insert _ _ _ _).trans ((if_pos rfl).trans henvelope)
  clear_value s message
  have hmigrates (f : Faults) := rekey_migrates (Backing.memory_isMap.fallible_failing f) own previous "current" s
    Nonces.sized_ofList_nil
  refine ⟨?saved, ?unsaved⟩
  case saved =>
    obtain ⟨-, -, -, hfound⟩ := hmigrates {}
    obtain ⟨hanswer, hopens, -⟩ :=
      ((hfound _ (congrArg Except.ok hentry)).2.2 e message hown hprevious).2 rfl
    exact ⟨hanswer, hopens⟩
  case unsaved =>
    obtain ⟨herror, -, -, hfound⟩ := hmigrates { save := some full }
    have hanswer := ((hfound _ (congrArg Except.ok hentry)).2.2 e message hown hprevious).1 full rfl
    exact ⟨hanswer, herror full hanswer⟩

end Vault

end ClientAuth
