import ClientAuth.Proofs.Interleaving.Healing
import ClientAuth.Proofs.Store.AtomicMap

/-!
# Restores from damaged files

A load from a store of files takes octets that are no text for a failure of the store (`FileStore.load_of_no_text`). So a
restore spares a file of such octets, and every restore after it fails in the same way, while whatever else is the matter
with a file is healed by the first restore (`restore_heals_files_unless_no_text`).
-/

namespace ClientAuth

/-! ## The file of a key -/

namespace FileStore

variable {s : FileStore} {key : String} {suffix : UInt64}

/-- A load gives the text in the file of its key, or nothing without a file. -/
theorem load_of_accepted (hc : FileCall.Accepted ⟨.load key, suffix⟩) {entry : Option String}
    (hget : s.directory.get? (entryName key) = entry.map Utf8.encode) : s.load key = .ok entry :=
  (load_of_checkKey (checkKey_of_ne hc.key) s).trans (Directory.entryOf_read (hc.names _ List.mem_cons_self) hget)

/-- A load from a file of octets that are no text fails as if the store had. -/
theorem load_of_no_text (hc : FileCall.Accepted ⟨.load key, suffix⟩) {content : Bytes}
    (hget : s.directory.get? (entryName key) = some content) (htext : ∀ blob, content ≠ Utf8.encode blob) :
    s.load key = .error (.io (Directory.failure "InvalidData")) := by
  have hkey : checkKey key = .ok () := checkKey_of_ne hc.key
  have hread : s.directory.read (entryName key) = .ok content := by
    simp only [Directory.read, hc.names _ List.mem_cons_self, hget]
    rfl
  rw [load_of_checkKey hkey, hread]
  cases hdecode : Utf8.decode content with
  | ok blob => exact absurd ((Utf8.decode_eq_ok_iff content blob).1 hdecode) (htext blob)
  | error e => simp only [entryOf, hdecode]

/-- A removal deletes the file of its key, and no other. -/
theorem remove_of_get? (hc : FileCall.Accepted ⟨.load key, suffix⟩) {content : Bytes}
    (hget : s.directory.get? (entryName key) = some content) :
    s.remove key = (.ok (), { s with directory := s.directory.erase (entryName key) }) := by
  have hkey : checkKey key = .ok () := checkKey_of_ne hc.key
  simp only [remove, hkey, Directory.perform_delete (hc.names _ List.mem_cons_self) hget]

end FileStore

/-- A store none of whose operations are made to fail is as it is. -/
@[simp] theorem Backing.failing_none {σ : Type} (b : Backing σ) : b.failing {} = b := rfl

namespace Interleaving

/-- Rounds in which the store performs every operation. -/
def Calm (rounds : Fin 6 → Weather × Instant) : Prop := ∀ k, (rounds k).1.faults = {}

variable {m : Manager} {σ : Type} {b : Backing σ} {s : State m σ}

theorem Calm.failing {rounds : Fin 6 → Weather × Instant} (h : Calm rounds) (k : Fin 6) :
    b.failing (rounds k).1.faults = b := by
  rw [h k, Backing.failing_none]

namespace State

/-! ## One restore after another -/

variable {calls : List (Fin 6 → Weather × Instant)}

/-- Restores that come to the same, and leave the slot and the store, do so in any number. -/
theorem restores_of_settled {o : Outcome} {slot : Slot} {store : σ} {events : List LogEvent}
    (hstep : ∀ t : State m σ, t.Fresh → t.slot = slot → t.store = store → ∀ rounds ∈ calls,
      t.Concludes (t.deed b (.runs .restore rounds)) o slot store events)
    (hs : s.Fresh) (hslot : s.slot = slot) (hstore : s.store = store) :
    let s' := s.deeds b (calls.map (.runs .restore))
    s'.slot = slot ∧ s'.store = store ∧ (∀ e ∈ s.history, e ∈ s'.history) ∧
      ∀ k < calls.length, .resolved (s.made + k) o ∈ s'.history := by
  induction calls generalizing s with
  | nil => exact ⟨hslot, hstore, fun _ h => h, fun k hk => absurd hk (Nat.not_lt_zero k)⟩
  | cons rounds calls ih =>
    have h := hstep s hs hslot hstore rounds List.mem_cons_self
    obtain ⟨hslot', hstore', hkept, hresolved⟩ :=
      ih (fun t ht hslot hstore r hr => hstep t ht hslot hstore r (List.mem_cons_of_mem _ hr)) (h.fresh hs) h.slot h.store
    obtain ⟨es, hh, -⟩ := h.history
    refine ⟨hslot', hstore', fun e he => hkept e ?_, fun k hk => ?_⟩
    · rw [hh]
      exact List.mem_cons_of_mem _ (List.mem_append_right es he)
    · cases k with
      | zero => exact hkept _ h.resolved
      | succ k =>
        have hnext := hresolved k (Nat.lt_of_succ_lt_succ hk)
        rw [h.made, Nat.add_right_comm] at hnext
        exact hnext

variable (hs : s.Fresh) (hf : s.slot.inFlight = none) (hcalm : ∀ rounds ∈ calls, Calm rounds)
include hs hf hcalm

/-- As long as a load fails in the store, so does every restore. -/
theorem restores_of_load_error (hm : m.cipher.isSome = true) {e : VaultError} (he : e.OfStore)
    (hload : b.load s.store m.config.storageKey = .error e) :
    let s' := s.deeds b (calls.map (.runs .restore))
    s'.slot = s.slot ∧ s'.store = s.store ∧
      ∀ k < calls.length, .resolved (s.made + k) (.error (.vault .restoring e)) ∈ s'.history := by
  have hstep (t : State m σ) (ht : t.Fresh) (hslot : t.slot = s.slot) (hstore : t.store = s.store) (rounds)
      (hr : rounds ∈ calls) :
      t.Concludes (t.deed b (.runs .restore rounds)) (.error (.vault .restoring e)) s.slot s.store [] := by
    rw [← hslot, ← hstore]
    refine restore_of_load_error ht hm (hslot ▸ hf) he ?_
    rw [(hcalm rounds hr).failing, hstore, hload]
  obtain ⟨hslot, hstore, -, hresolved⟩ := restores_of_settled hstep hs rfl rfl
  exact ⟨hslot, hstore, hresolved⟩

/-- As long as there is no entry, every restore finds nothing. -/
theorem restores_of_none (hm : m.cipher.isSome = true) (hload : b.load s.store m.config.storageKey = .ok none) :
    ∀ k < calls.length, .resolved (s.made + k) (.ok none) ∈ (s.deeds b (calls.map (.runs .restore))).history := by
  have hstep (t : State m σ) (ht : t.Fresh) (hslot : t.slot = s.slot) (hstore : t.store = s.store) (rounds)
      (hr : rounds ∈ calls) : t.Concludes (t.deed b (.runs .restore rounds)) (.ok none) s.slot s.store [] := by
    rw [← hslot, ← hstore]
    refine restore_of_none ht hm (hslot ▸ hf) ?_
    rw [(hcalm rounds hr).failing, hstore, hload]
  exact (restores_of_settled hstep hs rfl rfl).2.2.2

/-- As long as the entry holds the credential in the slot, every restore brings it back. -/
theorem restores_of_credential {cipher : Cipher} (hm : m.cipher = some cipher) {blob : String} {c : Credential}
    (hload : b.load s.store m.config.storageKey = .ok (some blob))
    (hc : cipher.discloseValue Credential.codec blob = .ok c) (hfilled : s.slot.credential = some c) :
    ∀ k < calls.length,
      .resolved (s.made + k) (.ok (some c.headerValue)) ∈ (s.deeds b (calls.map (.runs .restore))).history := by
  have hslot' : s.slot.fill c = s.slot := by
    rw [Slot.fill, ← hfilled]
  have hstep (t : State m σ) (ht : t.Fresh) (hslot : t.slot = s.slot) (hstore : t.store = s.store) (rounds)
      (hr : rounds ∈ calls) :
      t.Concludes (t.deed b (.runs .restore rounds)) (.ok (some c.headerValue)) s.slot s.store [.restored c.identity] := by
    rw [← hslot', ← hslot, ← hstore]
    refine restore_of_credential ht hm (hslot ▸ hf) ?_ hc
    rw [(hcalm rounds hr).failing, hstore, hload]
  exact (restores_of_settled hstep hs rfl rfl).2.2.2

end State

/-- A manager that keeps its entry in a file, whose every access succeeds. Whatever octets are in the file, they are no
text, or the first of any number of restores settles what becomes of them: if they hold a credential, it caches that, and
so do all that follow; if not, it fails and deletes this file and no other, so that all that follow find nothing. But of
octets that are no text every restore says the same, and none deletes the file. -/
theorem restore_heals_files_unless_no_text {cipher : Cipher} (hm : m.cipher = some cipher)
    (hkey : FileCall.Accepted ⟨.load m.config.storageKey, 0⟩) {s : State m FileStore}
    (hs : Reachable FileStore.backing s) :
    let file := FileStore.entryName m.config.storageKey
    (∀ i, s.guard? i = none) → ∀ content, s.store.directory.get? file = some content →
      ∀ first more, (∀ rounds ∈ first :: more, Calm rounds) →
        let s' := s.deed FileStore.backing (.runs .restore first)
        let s'' := s'.deeds FileStore.backing (more.map (.runs .restore))
        (∀ blob, content = Utf8.encode blob →
          (∀ c, cipher.discloseValue Credential.codec blob = .ok c →
            s.Concludes s' (.ok (some c.headerValue)) (s.slot.fill c) s.store [.restored c.identity] ∧
            ∀ k < more.length, .resolved (s'.made + k) (.ok (some c.headerValue)) ∈ s''.history) ∧
          ∀ e, cipher.discloseValue Credential.codec blob = .error e →
            s.Concludes s' (.error (.vault .restoring e)) s.slot
              { s.store with directory := s.store.directory.erase file } [] ∧
            ∀ k < more.length, .resolved (s'.made + k) (.ok none) ∈ s''.history) ∧
        ((∀ blob, content ≠ Utf8.encode blob) →
          s''.slot = s.slot ∧ s''.store = s.store ∧ ∀ k ≤ more.length,
            .resolved (s.made + k) (.error (.vault .restoring (.io (Directory.failure "InvalidData")))) ∈ s''.history) := by
  intro file hnone content hget first more hcalm s' s''
  have g : Guarded s := hs.guarded
  have hfresh : s.Fresh := g.live_lt
  have hsome : m.cipher.isSome = true := by
    rw [hm]
    rfl
  have hf : s.slot.inFlight = none := g.inFlight_eq_none hnone
  have hfirst : ∀ k, FileStore.backing.failing (first k).1.faults = FileStore.backing :=
    (hcalm first List.mem_cons_self).failing
  have hmore : ∀ rounds ∈ more, Calm rounds := fun rounds hr => hcalm rounds (List.mem_cons_of_mem _ hr)
  refine ⟨?text, ?noText⟩
  case text =>
    rintro blob rfl
    have hblob : s.store.load m.config.storageKey = .ok (some blob) := FileStore.load_of_accepted hkey hget
    have hload : (FileStore.backing.failing (first 1).1.faults).load s.store m.config.storageKey = .ok (some blob) := by
      rw [hfirst]
      exact hblob
    refine ⟨fun c hc => ?usable, fun e he => ?unusable⟩
    case usable =>
      have h : s.Concludes s' _ (s.slot.fill c) s.store _ := State.restore_of_credential hfresh hm hf hload hc
      have hf' : s'.slot.inFlight = none := by
        rw [h.slot]
        exact hf
      have hfilled : s'.slot.credential = some c := by
        rw [h.slot]
        rfl
      exact ⟨h, State.restores_of_credential (h.fresh hfresh) hf' hmore hm (h.store ▸ hblob) hc hfilled⟩
    case unusable =>
      have h := State.restore_of_unusable hfresh hm hf hload he
      have hdeletes : s.store.remove m.config.storageKey =
          (.ok (), { s.store with directory := s.store.directory.erase file }) := FileStore.remove_of_get? hkey hget
      have hremove : (FileStore.backing.failing (first 2).1.faults).remove s.store m.config.storageKey =
          (.ok (), { s.store with directory := s.store.directory.erase file }) := by
        rw [hfirst]
        exact hdeletes
      rw [hremove] at h
      have hgone : s'.store.load m.config.storageKey = .ok none := by
        rw [h.store]
        exact FileStore.load_of_accepted hkey (Directory.get?_erase_self _ _)
      have hf' : s'.slot.inFlight = none := by
        rw [h.slot]
        exact hf
      exact ⟨h, State.restores_of_none (h.fresh hfresh) hf' hmore hsome hgone⟩
  case noText =>
    intro htext
    have hload : FileStore.backing.load s.store m.config.storageKey = .error (.io (Directory.failure "InvalidData")) :=
      FileStore.load_of_no_text hkey hget htext
    have hoff : (VaultError.io (Directory.failure "InvalidData")).OfStore := trivial
    obtain ⟨hslot, hstore, hresolved⟩ := State.restores_of_load_error hfresh hf hcalm hsome hoff hload
    exact ⟨hslot, hstore, fun k hk => hresolved k (Nat.lt_succ_of_le hk)⟩

/-- A file of the single octet `ff`, which no text has, fails two restores and stays. A file of the text `?`, which is no
envelope, fails one, and the next finds nothing. -/
theorem restore_heals_files_unless_no_text_stray_octet :
    let m : Manager := ⟨{}, .never, some (.ofPassword .aes256Gcm "password")⟩
    let file := FileStore.entryName "authorization-credential"
    let rounds : Fin 6 → Weather × Instant := fun _ => (⟨.ok "nonce", .error .cancelled, {}⟩, ⟨0, 0⟩)
    let holding (content : Bytes) : State m FileStore := .new ⟨⟨[(file, content)]⟩, 0⟩ (.ofList [])
    let once (content : Bytes) : State m FileStore := (holding content).deed FileStore.backing (.runs .restore rounds)
    let twice (content : Bytes) : State m FileStore := (once content).deeds FileStore.backing [.runs .restore rounds]
    let stray : AuthError := .vault .restoring (.io (Directory.failure "InvalidData"))
    (.resolved 0 (.error stray) ∈ (twice [0xff]).history ∧ .resolved 1 (.error stray) ∈ (twice [0xff]).history ∧
      (twice [0xff]).store.directory.get? file = some [0xff]) ∧
    .resolved 1 (.ok none) ∈ (twice (Utf8.encode "?")).history := by
  generalize Cipher.ofPassword .aes256Gcm "password" = cipher
  intro m file rounds holding once twice stray
  have hkey : FileCall.Accepted ⟨.load m.config.storageKey, 0⟩ := by
    have hshort : ∀ name ∈ (FileCall.mk (.load "authorization-credential") 0).names,
      name.utf8ByteSize ≤ Directory.maxNameLength := by decide
    exact ⟨(by decide : "authorization-credential" ≠ ""), fun name hname => if_pos (hshort name hname)⟩
  have hcalm : ∀ r ∈ [rounds, rounds], Calm r := by simp [Calm, rounds]
  have hget (content : Bytes) : (Directory.mk [(file, content)]).get? file = some content := List.lookup_cons_self
  have hreached (content : Bytes) : Reachable FileStore.backing (holding content) := .new _ _
  have hheals (content : Bytes) := restore_heals_files_unless_no_text rfl hkey (hreached content) (fun _ => rfl) content
    (hget content) _ _ hcalm
  refine ⟨?stray, ?garbled⟩
  case stray =>
    obtain ⟨e, he⟩ : ∃ e, Utf8.decode [0xff] = .error e := ⟨_, rfl⟩
    have htext (blob : String) : [0xff] ≠ Utf8.encode blob := by
      intro h
      cases he.symm.trans ((Utf8.decode_eq_ok_iff _ blob).2 h)
    obtain ⟨-, hstore, hresolved⟩ := (hheals [0xff]).2 htext
    have hkept : (twice [0xff]).store = (holding [0xff]).store := hstore
    have h₀ : .resolved (0 + 0) (.error stray) ∈ (twice [0xff]).history := hresolved 0 (Nat.zero_le _)
    have h₁ : .resolved (0 + 1) (.error stray) ∈ (twice [0xff]).history := hresolved 1 (Nat.le_refl _)
    refine ⟨h₀, h₁, ?_⟩
    rw [hkept]
    exact hget [0xff]
  case garbled =>
    have hgarbled : cipher.discloseValue Credential.codec "?" = .error (.base64 (.invalidSymbol 63 0)) :=
      (Cipher.discloseValue_eq_error_iff Credential.codec "?").2 (.inl ⟨_, by decide, rfl⟩)
    obtain ⟨h, hresolved⟩ := ((hheals (Utf8.encode "?")).1 "?" rfl).2 _ hgarbled
    have hmade : (once (Utf8.encode "?")).made = 1 := h.made
    have hnext : .resolved ((once (Utf8.encode "?")).made + 0) (.ok none) ∈ (twice (Utf8.encode "?")).history :=
      hresolved 0 Nat.zero_lt_one
    rwa [hmade] at hnext

end Interleaving

end ClientAuth
