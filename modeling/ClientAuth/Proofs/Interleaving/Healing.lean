import ClientAuth.Proofs.Encoding.Envelope
import ClientAuth.Proofs.Interleaving.Restarts
import ClientAuth.Proofs.Interleaving.SingleFlight
import ClientAuth.Proofs.Store.Migration

/-!
# A restore on its own

What is the matter with an entry is told apart from what is the matter with the store that holds it
(`VaultError.isEntryUnusable_iff`), whatever stands in the entry (`Cipher.not_ofStore_of_discloseValue`). So a restore that
nothing else comes between (`State.Concludes`) removes an entry that cannot be used, and spares every other one
(`restore_heals`).
-/

namespace ClientAuth

open Json (Codec)

/-! ## Failures of stores and of entries -/

/-- A failure to get at a store, not one of what is in it. -/
def VaultError.OfStore : VaultError → Prop
  | io _ | misuse _ => True
  | _ => False

/-- An entry is at fault in every failure but those of the store. -/
theorem VaultError.isEntryUnusable_iff (e : VaultError) : e.isEntryUnusable = true ↔ ¬e.OfStore := by
  cases e <;> simp [isEntryUnusable, OfStore]

namespace Cipher

variable {c : Cipher} {e : VaultError}

/-- A value is refused because its envelope is no base64, because the cipher refuses what is in the envelope, or because
what is revealed is not the document of a value. -/
theorem discloseValue_eq_error_iff {α : Type} (codec : Codec α) (envelope : String) :
    c.discloseValue codec envelope = .error e ↔
      (∃ cause, Base64.decode Base64.standard (Text.trim envelope) = .error cause ∧ e = .base64 cause) ∨
      (∃ bs, Base64.decode Base64.standard (Text.trim envelope) = .ok bs ∧ c.reveal bs = .error e) ∨
      ∃ message cause, c.disclose envelope = .ok message ∧ codec.parse message = .error cause ∧ e = .json cause := by
  unfold discloseValue disclose
  cases Base64.decode Base64.standard (Text.trim envelope) with
  | error cause => simp [Except.mapError, bind, Except.bind, eq_comm]
  | ok bs =>
    cases hreveal : c.reveal bs with
    | error refusal => simp [Except.mapError, bind, Except.bind, hreveal]
    | ok message =>
      cases hparse : codec.parse message with
      | error cause => simp [Except.mapError, bind, Except.bind, hreveal, hparse, eq_comm]
      | ok a => simp [Except.mapError, bind, Except.bind, hreveal, hparse]

/-- What a cipher says of octets is not about a store. -/
theorem not_ofStore_of_reveal {bs : Bytes} (h : c.reveal bs = .error e) : ¬e.OfStore := by
  cases ha : c.algorithm with
  | legacyAes128Ecb =>
    rw [error_of_legacy c ha h]
    split <;> exact id
  | aes256Gcm =>
    rw [error_of_gcm c ha h]
    exact id

/-- What is said of an entry that is no value is not about a store. -/
theorem not_ofStore_of_discloseValue {α : Type} {codec : Codec α} {envelope : String}
    (h : c.discloseValue codec envelope = .error e) : ¬e.OfStore := by
  rcases (discloseValue_eq_error_iff codec envelope).1 h with ⟨cause, -, rfl⟩ | ⟨bs, -, hreveal⟩ | ⟨_, cause, -, -, rfl⟩
  · exact id
  · exact not_ofStore_of_reveal hreveal
  · exact id

end Cipher

namespace Interleaving

variable {m : Manager} {σ : Type} {b : Backing σ} {view : σ → String → Option String} {s s' : State m σ} {i : Nat}

/-- What a manager comes to by moves, while others may change the store at any time. -/
inductive Reachable (b : Backing σ) : State m σ → Prop where
  | new (store : σ) (nonces : Nonces) : Reachable b (.new store nonces)
  | step {s : State m σ} (hs : Reachable b s) (move : Move) : Reachable b (s.step b move)
  | changed {s : State m σ} (hs : Reachable b s) (store : σ) : Reachable b { s with store }

theorem Reachable.guarded (hs : Reachable b s) : Guarded s := by
  induction hs with
  | new store nonces => exact .new store nonces
  | step hs move ih => exact ih.change (State.step_change b _ move)
  | changed hs store ih => exact ih.withStore store

namespace State

/-! ## Rounds of a future that is driven alone -/

/-- A round performs the call that a future waits for, and polls the future. -/
theorem run_drive_cons (s : State m σ) (i : Nat) (r : Weather × Instant) (rounds : List (Weather × Instant)) :
    s.run b (drive i (r :: rounds)) =
      ((s.step b (.perform i r.1)).step b (.poll i r.2)).run b (drive i rounds) := rfl

/-- Driving a future that is gone changes nothing. -/
theorem run_drive_of_gone (hf : s.futures i = none) (rounds : List (Weather × Instant)) :
    s.run b (drive i rounds) = s := by
  induction rounds with
  | nil => rfl
  | cons r rounds ih =>
    rw [run_drive_cons]
    simp only [step, hf, ih]

/-- The first round of a future runs its task up to its first call. -/
theorem run_drive_of_new {t : Task} (hf : s.futures i = some ⟨.unanswered t, false⟩) (ht : ∀ stage, t ≠ .waiting stage)
    (r : Weather × Instant) (rounds : List (Weather × Instant)) :
    s.run b (drive i (r :: rounds)) =
      (({ s with history := .ran i t r.2 :: s.history } : State m σ).settle i (t.start m (s.scene r.2))).run b
        (drive i rounds) := by
  rw [run_drive_cons]
  cases t with
  | waiting stage => exact absurd rfl (ht stage)
  | _ => simp [step, hf, poll, Phase.run?, Phase.task]

/-- Every other round goes on with the answer to the call that the future waits for. -/
theorem run_drive_of_waiting {stage : Stage} (hf : s.futures i = some ⟨.unanswered (.waiting stage), false⟩)
    (r : Weather × Instant) (rounds : List (Weather × Instant)) :
    let a := (r.1.world b s.store).answer (stage.call m)
    s.run b (drive i (r :: rounds)) =
      (({ s with
          store := a.2
          history := .ran i (.waiting stage) r.2 :: .performed i (stage.call m) a.1 :: s.history } : State m σ).settle i
        (stage.resume m a.1 (s.scene r.2))).run b (drive i rounds) := by
  intro a
  have hround : (s.step b (.perform i r.1)).step b (.poll i r.2) =
      (({ s with
          store := a.2
          history := .ran i (.waiting stage) r.2 :: .performed i (stage.call m) a.1 :: s.history } : State m σ).settle i
        (stage.resume m a.1 (s.scene r.2))) := by
    simp only [step, hf, perform, Function.update_self, poll, Phase.run?, Phase.task, scene]
    cases stage.resume m a.1 ⟨s.slot, s.nonces, r.2, s.log⟩ with
    | mk p s₁ => cases p <;> simp [settle, a]
  rw [run_drive_cons, hround]

/-- What a call has come to that was made in one state and is over in another: its outcome, and all that is new. That is
what it left of the slot and of the store, and what it added to the log. No other future has changed, and whatever has
happened is about this one. -/
structure Concludes (s s' : State m σ) (o : Outcome) (slot : Slot) (store : σ) (events : List LogEvent) : Prop where
  slot : s'.slot = slot
  store : s'.store = store
  log : s'.log = s.log ++ events
  nonces : s'.nonces = s.nonces
  futures : s'.futures = s.futures
  made : s'.made = s.made + 1
  history : ∃ es, s'.history = .resolved s.made o :: es ++ s.history ∧ ∀ e ∈ es, e.future = s.made

/-- The next future has yet to be made. -/
def Fresh (s : State m σ) : Prop := ∀ i f, s.futures i = some f → i < s.made

theorem Fresh.made (h : s.Fresh) : s.futures s.made = none := by
  cases hf : s.futures s.made with
  | none => rfl
  | some f => exact absurd (h s.made f hf) (Nat.lt_irrefl _)

namespace Concludes

variable {o : Outcome} {slot : Slot} {store : σ} {events : List LogEvent}

theorem fresh (h : s.Concludes s' o slot store events) (hs : s.Fresh) : s'.Fresh := by
  intro i f hf
  rw [h.futures] at hf
  rw [h.made]
  exact Nat.lt_succ_of_lt (hs i f hf)

theorem resolved (h : s.Concludes s' o slot store events) : .resolved s.made o ∈ s'.history := by
  obtain ⟨es, hh, -⟩ := h.history
  rw [hh]
  exact List.mem_cons_self

/-- A call is over when a run has ended; more rounds change nothing. -/
theorem of_finished {s₁ : State m σ} {scene : Scene} (hs : s.Fresh) (hmade : s₁.made = s.made + 1)
    (hfutures : ∀ j, j ≠ s.made → s₁.futures j = s.futures j)
    (hhistory : ∃ es, s₁.history = es ++ s.history ∧ ∀ e ∈ es, e.future = s.made)
    (hlog : scene.log = s.log ++ events) (hnonces : scene.nonces = s.nonces) (rounds : List (Weather × Instant)) :
    s.Concludes ((s₁.settle s.made (.finished o, scene)).run b (drive s.made rounds)) o scene.slot s₁.store events := by
  have hgone : (s₁.settle s.made (.finished o, scene)).futures s.made = none := Function.update_self _ _ _
  rw [run_drive_of_gone hgone]
  refine ⟨rfl, rfl, hlog, hnonces, funext fun j => ?_, hmade, ?_⟩
  · by_cases hj : j = s.made
    · rw [hj, hgone, hs.made]
    · exact (Function.update_of_ne hj _ _).trans (hfutures j hj)
  · obtain ⟨es, hh, hes⟩ := hhistory
    exact ⟨es, congrArg (Event.resolved s.made o :: ·) hh, hes⟩

end Concludes

/-! ## A restore that is driven alone -/

variable {rounds : Fin 6 → Weather × Instant}

/-- A restore is driven by three rounds at most. -/
theorem deed_restore_eq (s : State m σ) (rounds : Fin 6 → Weather × Instant) :
    ∃ more, s.deed b (.runs .restore rounds) =
      (({ s.add .restore with history := .ran s.made .restore (rounds 0).2 :: (s.add .restore).history } :
        State m σ).settle s.made (m.startRestore (s.scene (rounds 0).2))).run b
          (drive s.made (rounds 1 :: rounds 2 :: more)) := by
  refine ⟨[rounds 3, rounds 4, rounds 5], ?_⟩
  have hnew : (s.add .restore).futures s.made = some ⟨.unanswered .restore, false⟩ := Function.update_self _ _ _
  have hrounds : List.ofFn rounds = [rounds 0, rounds 1, rounds 2, rounds 3, rounds 4, rounds 5] := by
    simp [List.ofFn_succ]
  exact (congrArg (fun rs => (s.add .restore).run b (drive s.made rs)) hrounds).trans
    (run_drive_of_new hnew (by simp) _ _)

/-- A restore is refused while a guard is held, before it makes any call. -/
theorem restore_of_held (hs : s.Fresh) (hm : m.cipher.isSome = true) (hf : s.slot.inFlight.isSome = true) :
    s.Concludes (s.deed b (.runs .restore rounds)) (.error .busy) s.slot s.store [] := by
  obtain ⟨cipher, hc⟩ := Option.isSome_iff_exists.1 hm
  obtain ⟨more, hdeed⟩ := s.deed_restore_eq (b := b) rounds
  have hstart : m.startRestore (s.scene (rounds 0).2) = (.finished (.error .busy), s.scene (rounds 0).2) := by
    simp [Manager.startRestore, hc, scene, hf]
  rw [hdeed, hstart]
  exact .of_finished hs rfl (fun j hj => Function.update_of_ne hj _ _) ⟨[_, _], rfl, by simp [Event.future]⟩
    (List.append_nil _).symm rfl _

/-- While no guard is held, a restore loads the entry. -/
theorem restore_of_idle (hm : m.cipher.isSome = true) (hf : s.slot.inFlight = none) (rounds : Fin 6 → Weather × Instant) :
    ∃ (s₁ : State m σ) (more : List (Weather × Instant)),
      s.deed b (.runs .restore rounds) =
        (s₁.settle s.made (Stage.resume m (.loading s.slot.generation)
          ((b.failing (rounds 1).1.faults).load s.store m.config.storageKey) (s.scene (rounds 1).2))).run b
            (drive s.made (rounds 2 :: more)) ∧
      s₁.store = s.store ∧ s₁.made = s.made + 1 ∧ (∀ j, j ≠ s.made → s₁.futures j = s.futures j) ∧
      ∃ es, s₁.history = es ++ s.history ∧ ∀ e ∈ es, e.future = s.made := by
  obtain ⟨cipher, hc⟩ := Option.isSome_iff_exists.1 hm
  obtain ⟨more, hdeed⟩ := s.deed_restore_eq (b := b) rounds
  have hstart : m.startRestore (s.scene (rounds 0).2) =
      (.waiting (.loading s.slot.generation), s.scene (rounds 0).2) := by
    simp [Manager.startRestore, hc, scene, hf]
  rw [hstart] at hdeed
  refine ⟨_, more, hdeed.trans (run_drive_of_waiting (Function.update_self _ _ _) _ _), rfl, rfl, fun j hj => ?_,
    [_, _, _, _], rfl, by simp [Event.future]⟩
  exact (Function.update_of_ne hj _ _).trans (Function.update_of_ne hj _ _)

/-- A restore that ends with the answer to its load leaves the store as it is. -/
theorem restore_of_answered {o : Outcome} {slot : Slot} {events : List LogEvent} (hs : s.Fresh)
    (hm : m.cipher.isSome = true) (hf : s.slot.inFlight = none)
    (hresume : Stage.resume m (.loading s.slot.generation)
      ((b.failing (rounds 1).1.faults).load s.store m.config.storageKey) (s.scene (rounds 1).2) =
        (.finished o, { s.scene (rounds 1).2 with slot, log := s.log ++ events })) :
    s.Concludes (s.deed b (.runs .restore rounds)) o slot s.store events := by
  obtain ⟨s₁, more, hdeed, hstore, hmade, hfutures, hhistory⟩ := restore_of_idle (b := b) hm hf rounds
  rw [hdeed, hresume, ← hstore]
  exact .of_finished hs hmade hfutures hhistory rfl rfl _

/-- A failure to get at the store is all that a restore comes to. -/
theorem restore_of_load_error (hs : s.Fresh) (hm : m.cipher.isSome = true) (hf : s.slot.inFlight = none)
    {e : VaultError} (he : e.OfStore)
    (hload : (b.failing (rounds 1).1.faults).load s.store m.config.storageKey = .error e) :
    s.Concludes (s.deed b (.runs .restore rounds)) (.error (.vault .restoring e)) s.slot s.store [] := by
  have husable : e.isEntryUnusable = false := by
    rw [← Bool.not_eq_true, VaultError.isEntryUnusable_iff, not_not]
    exact he
  refine restore_of_answered hs hm hf ?_
  simp [hload, Stage.resume, Restoration.fail, husable, scene]

/-- Without an entry a restore finds nothing. -/
theorem restore_of_none (hs : s.Fresh) (hm : m.cipher.isSome = true) (hf : s.slot.inFlight = none)
    (hload : (b.failing (rounds 1).1.faults).load s.store m.config.storageKey = .ok none) :
    s.Concludes (s.deed b (.runs .restore rounds)) (.ok none) s.slot s.store [] := by
  have hrev : m.revealed none = .ok none := rfl
  refine restore_of_answered hs hm hf ?_
  simp [hload, Stage.resume, hrev, scene]

/-- A restore brings back the credential of an entry that can be used. -/
theorem restore_of_credential (hs : s.Fresh) {cipher : Cipher} (hm : m.cipher = some cipher)
    (hf : s.slot.inFlight = none) {blob : String} {c : Credential}
    (hload : (b.failing (rounds 1).1.faults).load s.store m.config.storageKey = .ok (some blob))
    (hc : cipher.discloseValue Credential.codec blob = .ok c) :
    s.Concludes (s.deed b (.runs .restore rounds)) (.ok (some c.headerValue)) (s.slot.fill c) s.store
      [.restored c.identity] := by
  have hrev : m.revealed (some blob) = .ok (some c) := by
    rw [Manager.revealed_some hm, hc]
    rfl
  refine restore_of_answered hs (by rw [hm]; rfl) hf ?_
  simp [hload, Stage.resume, hrev, Restoration.finish, hf, scene, Scene.record]

/-- What a restore adds to the log when it has tried to remove an entry. -/
def removalEvents : Except VaultError Unit → List LogEvent
  | .ok () => []
  | .error _ => [.removeFailed]

theorem recordRemoval_eq (s : Scene) (r : Except VaultError Unit) :
    s.recordRemoval r = { s with log := s.log ++ removalEvents r } := by
  cases r with
  | ok u => simp [Scene.recordRemoval, removalEvents]
  | error e => rfl

/-- A restore removes an entry that cannot be used, and says why it cannot. -/
theorem restore_of_unusable (hs : s.Fresh) {cipher : Cipher} (hm : m.cipher = some cipher)
    (hf : s.slot.inFlight = none) {blob : String} {e : VaultError}
    (hload : (b.failing (rounds 1).1.faults).load s.store m.config.storageKey = .ok (some blob))
    (he : cipher.discloseValue Credential.codec blob = .error e) :
    let removal := (b.failing (rounds 2).1.faults).remove s.store m.config.storageKey
    s.Concludes (s.deed b (.runs .restore rounds)) (.error (.vault .restoring e)) s.slot removal.2
      (removalEvents removal.1) := by
  intro removal
  have hrev : m.revealed (some blob) = .error e := by
    rw [Manager.revealed_some hm, he]
    rfl
  have hunusable : e.isEntryUnusable = true := e.isEntryUnusable_iff.2 (Cipher.not_ofStore_of_discloseValue he)
  obtain ⟨s₁, more, hdeed, hstore, hmade, hfutures, es, hh, hes⟩ :=
    restore_of_idle (s := s) (b := b) (by rw [hm]; rfl) hf rounds
  have hresume : Stage.resume m (.loading s.slot.generation)
      ((b.failing (rounds 1).1.faults).load s.store m.config.storageKey) (s.scene (rounds 1).2) =
        (.waiting (.discarding e), s.scene (rounds 1).2) := by
    simp [hload, Stage.resume, hrev, Restoration.fail, hunusable]
  have hdiscarding : (s₁.settle s.made (.waiting (.discarding e), s.scene (rounds 1).2)).futures s.made =
      some ⟨.unanswered (.waiting (.discarding e)), false⟩ := Function.update_self _ _ _
  rw [hdeed, hresume, run_drive_of_waiting hdiscarding]
  have hanswer : ((rounds 2).1.world b (s₁.settle s.made (.waiting (.discarding e), s.scene (rounds 1).2)).store).answer
      ((Stage.discarding e).call m) = removal :=
    congrArg (fun store => (b.failing (rounds 2).1.faults).remove store m.config.storageKey) hstore
  have hresumed (scene : Scene) : Stage.resume m (.discarding e) removal.1 scene =
      (.finished (.error (.vault .restoring e)), { scene with log := scene.log ++ removalEvents removal.1 }) :=
    congrArg (Prod.mk _) (recordRemoval_eq scene removal.1)
  simp only [hanswer, hresumed]
  refine .of_finished hs ?made ?futures ⟨_ :: _ :: es, congrArg (_ :: _ :: ·) hh, ?about⟩ ?log ?nonces more
  case made => exact hmade
  case futures => exact fun j hj => (Function.update_of_ne hj _ _).trans (hfutures j hj)
  case about => simpa [Event.future] using hes
  case log => rfl
  case nonces => rfl

end State

/-! ## Every restore -/

/-- A restore that nothing else comes between, from whatever state a manager comes to and in whatever weather. While a
guard is held it is refused. Otherwise it ends in one of four ways, after what its load is answered: with the failure of
the store, with nothing when there is no entry, with the credential that it caches when the entry holds one, and with the
failure of the entry in every other case. Only then it changes the store: the entry is removed and no other is, so that
the next restore finds nothing. A removal that fails is noted, and leaves the entry. -/
theorem restore_heals (hb : b.IsFallibleMap view) {cipher : Cipher} (hm : m.cipher = some cipher) {s : State m σ}
    (hs : Reachable b s) (rounds : Fin 6 → Weather × Instant) :
    let s' := s.deed b (.runs .restore rounds)
    let key := m.config.storageKey
    let load := (b.failing (rounds 1).1.faults).load s.store key
    let removal := (b.failing (rounds 2).1.faults).remove s.store key
    ((∃ i t, s.guard? i = some t) → s.Concludes s' (.error .busy) s.slot s.store []) ∧
    ((∀ i, s.guard? i = none) →
      (∀ e, load = .error e → e.OfStore → s.Concludes s' (.error (.vault .restoring e)) s.slot s.store []) ∧
      (load = .ok none → s.Concludes s' (.ok none) s.slot s.store []) ∧
      ∀ blob, load = .ok (some blob) →
        (∀ c, cipher.discloseValue Credential.codec blob = .ok c →
          s.Concludes s' (.ok (some c.headerValue)) (s.slot.fill c) s.store [.restored c.identity]) ∧
        ∀ e, cipher.discloseValue Credential.codec blob = .error e → ¬e.OfStore ∧
          (removal.1 = .ok () →
            s.Concludes s' (.error (.vault .restoring e)) s.slot removal.2 [] ∧
            view s'.store = Function.update (view s.store) key none ∧
            ∀ rounds' entry, (b.failing (rounds' 1).1.faults).load s'.store key = .ok entry →
              s'.Concludes (s'.deed b (.runs .restore rounds')) (.ok none) s'.slot s'.store []) ∧
          ∀ e', removal.1 = .error e' →
            s.Concludes s' (.error (.vault .restoring e)) s.slot s.store [.removeFailed]) := by
  intro s' key load removal
  have g : Guarded s := hs.guarded
  have hfresh : s.Fresh := g.live_lt
  have hsome : m.cipher.isSome = true := by
    rw [hm]
    rfl
  refine ⟨?held, fun hnone => ?idle⟩
  case held =>
    rintro ⟨i, t, hi⟩
    refine State.restore_of_held hfresh hsome ?_
    rw [(g.inFlight_iff t).2 ⟨i, hi⟩]
    rfl
  case idle =>
    have hf : s.slot.inFlight = none := g.inFlight_eq_none hnone
    refine ⟨?failed, ?missing, fun blob hload => ⟨?usable, ?unusable⟩⟩
    case failed => exact fun e hload he => State.restore_of_load_error hfresh hsome hf he hload
    case missing => exact fun hload => State.restore_of_none hfresh hsome hf hload
    case usable => exact fun c hc => State.restore_of_credential hfresh hm hf hload hc
    case unusable =>
      intro e he
      have h : s.Concludes s' _ s.slot removal.2 (State.removalEvents removal.1) :=
        State.restore_of_unusable hfresh hm hf hload he
      refine ⟨Cipher.not_ofStore_of_discloseValue he, ?removed, ?kept⟩
      case removed =>
        intro hremoved
        have hview : view s'.store = Function.update (view s.store) key none := by
          rw [h.store]
          exact (hb.failing _).remove s.store key hremoved
        rw [hremoved] at h
        refine ⟨h, hview, fun rounds' entry hreload => ?_⟩
        -- The entry is gone, so that a load which succeeds finds none.
        have hentry : entry = none := by
          rw [← (hb.failing _).load s'.store key entry hreload, hview, Function.update_self]
        have hf' : s'.slot.inFlight = none := by rw [h.slot, hf]
        exact State.restore_of_none (h.fresh hfresh) hsome hf' (hentry ▸ hreload)
      case kept =>
        intro e' hkept
        have hstore : removal.2 = s.store := (hb.failing _).remove_error s.store key e' hkept
        rw [hkept, hstore] at h
        exact h

/-- An entry that is no envelope. A load that is refused leaves it; after one that finds it, nothing but the other entry
is left. -/
theorem restore_heals_garbled :
    let m : Manager := ⟨{}, .never, some (.ofPassword .aes256Gcm "password")⟩
    let key := "authorization-credential"
    let store := (Entries.empty.insert "other" "kept").insert key "?"
    let s : State m Entries := .new store (.ofList [])
    let garbled : VaultError := .base64 (.invalidSymbol 63 0)
    let denied : VaultError := .io ⟨"PermissionDenied", none⟩
    let restore (f : Faults) : Deed := .runs .restore fun _ => (⟨.ok "nonce", .error .cancelled, f⟩, ⟨0, 0⟩)
    let s₁ := s.deed .memory (restore { load := some denied })
    let s₂ := s.deed .memory (restore {})
    let s₃ := s₂.deed .memory (restore {})
    (.resolved 0 (.error (.vault .restoring denied)) ∈ s₁.history ∧ s₁.store = store) ∧
    (.resolved 0 (.error (.vault .restoring garbled)) ∈ s₂.history ∧ s₂.store.get? key = none ∧
      s₂.store.get? "other" = some "kept") ∧
    .resolved 1 (.ok none) ∈ s₃.history ∧ s₃.store = s₂.store := by
  generalize Cipher.ofPassword .aes256Gcm "password" = cipher
  intro m key store s garbled denied restore s₁ s₂ s₃
  have hidle (i : Nat) : s.guard? i = none := rfl
  have hgarbled : cipher.discloseValue Credential.codec "?" = .error garbled :=
    (Cipher.discloseValue_eq_error_iff Credential.codec "?").2 (.inl ⟨_, by decide, rfl⟩)
  have hreached : Reachable .memory s := .new _ _
  have hheals (f : Faults) := (restore_heals Backing.memory_isMap.fallible rfl hreached fun _ =>
    (⟨.ok "nonce", .error .cancelled, f⟩, ⟨0, 0⟩)).2 hidle
  refine ⟨?denied, ?garbled⟩
  case denied =>
    have h : s.Concludes s₁ _ s.slot s.store [] := (hheals { load := some denied }).1 denied rfl trivial
    exact ⟨h.resolved, h.store⟩
  case garbled =>
    have hentry : store.get? key = some "?" := (Entries.get?_insert _ _ _ _).trans (if_pos rfl)
    have hother : store.get? "other" = some "kept" :=
      (Entries.get?_insert _ _ _ _).trans <|
        (if_neg (show "other" ≠ "authorization-credential" by decide)).trans <|
          (Entries.get?_insert _ _ _ _).trans (if_pos rfl)
    obtain ⟨-, -, hfound⟩ := hheals {}
    obtain ⟨h, hview, hnext⟩ := ((hfound "?" (congrArg Except.ok hentry)).2 garbled hgarbled).2.1 rfl
    have h₂ : s₂.store.get? = Function.update store.get? key none := hview
    have hgone : s₂.store.get? key = none := by rw [h₂, Function.update_self]
    have hkept : s₂.store.get? "other" = some "kept" := by
      rw [h₂, Function.update_of_ne (show "other" ≠ "authorization-credential" by decide), hother]
    have h₃ : s₂.Concludes s₃ (.ok none) s₂.slot s₂.store [] := hnext _ none (congrArg Except.ok hgone)
    have hmade : s₂.made = 1 := h.made
    exact ⟨⟨h.resolved, hgone, hkept⟩, hmade ▸ h₃.resolved, h₃.store⟩

end Interleaving

end ClientAuth
