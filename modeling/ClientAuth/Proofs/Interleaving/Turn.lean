import ClientAuth.Proofs.Acceptance
import ClientAuth.Proofs.Interleaving.Basic

/-!
# What one poll can come to

`Turn` lists how a poll carries an exchange on, `SideTurn` does so for everything else. Their outlines say what becomes
of the slot: a waiting exchange leaves it alone, a failing one releases its guard, and only a current one fills it; a
poll of anything else leaves it alone, clears it, or fills it from the store.
-/

namespace ClientAuth

open Enrollment (Params Request Response TransportError)

/-- The exchange that a task belongs to. -/
def Task.exchange? : Task → Option Exchange
  | exchange x => some x
  | waiting stage => stage.exchange?
  | refused _ | clear | restore => none

/-- The task that a future was made for. -/
def Task.origin : Task → Task
  | waiting (.removingOld x) | waiting (.fetchingNonce x) | waiting (.enrolling x _) | waiting (.saving x _ _)
  | waiting (.cleaningUp x _) => exchange x
  | waiting .removing => clear
  | waiting (.loading _) | waiting (.discarding _) => restore
  | t => t

theorem Task.exchange?_iff_origin (t : Task) (x : Exchange) : t.exchange? = some x ↔ t.origin = exchange x := by
  cases t with
  | waiting stage => cases stage <;> simp [exchange?, Stage.exchange?, origin]
  | _ => simp [exchange?, origin]

/-- What was made for something else belongs to no exchange. -/
theorem Task.exchange?_eq_none {t : Task} (h : ∀ x, t.origin ≠ exchange x) : t.exchange? = none := by
  cases hx : t.exchange? with
  | none => rfl
  | some x => exact absurd ((exchange?_iff_origin t x).1 hx) (h x)

theorem Task.ticket?_eq (t : Task) : t.ticket? = t.exchange?.map (·.ticket) := by
  cases t <;> rfl

namespace Interleaving

variable {m : Manager}

/-- Why an exchange gives up. -/
inductive Cause (m : Manager) (x : Exchange) (s : Scene) : Phase m → AuthError → Prop where
  | nonce (e : TransportError) : Cause m x s (.answered (.fetchingNonce x) (Except.error e)) (.transport e)
  | enroll (request : Request) (e : TransportError) :
      Cause m x s (.answered (.enrolling x request) (Except.error e)) (.transport e)
  | rejected {request : Request} {r : Response} {e : AuthError} (ha : m.config.accept x.params r s.now = .error e) :
      Cause m x s (.answered (.enrolling x request) (Except.ok r)) e
  /-- It was superseded before the credential was saved. -/
  | early {request : Request} {r : Response} {c : Credential} (ha : m.config.accept x.params r s.now = .ok c)
      (hc : s.slot.isCurrent x.ticket = false) :
      Cause m x s (.answered (.enrolling x request) (Except.ok r)) .cancelled
  | save (c : Credential) (blob : String) (e : VaultError) :
      Cause m x s (.answered (.saving x c blob) (Except.error e)) (.vault .persisting e)
  /-- It was superseded while the credential was saved. -/
  | late {c : Credential} {blob : String} (hc : s.slot.isCurrent x.ticket = false) :
      Cause m x s (.answered (.saving x c blob) (Except.ok ())) .cancelled

/-- What an exchange is about to fill the slot with. -/
inductive Yield (m : Manager) (x : Exchange) (s : Scene) : Phase m → Credential → Prop where
  | saved (c : Credential) (blob : String) : Yield m x s (.answered (.saving x c blob) (Except.ok ())) c
  | unsaved {request : Request} {r : Response} {c : Credential} (hm : m.cipher = none)
      (ha : m.config.accept x.params r s.now = .ok c) :
      Yield m x s (.answered (.enrolling x request) (Except.ok r)) c

/-- How a poll carries an exchange on. -/
inductive Turn (m : Manager) (x : Exchange) (s : Scene) : Phase m → Run → Prop where
  | removes (hm : m.cipher.isSome = true) : Turn m x s (.unanswered (.exchange x)) (.waiting (.removingOld x), s)
  | starts (hm : m.cipher = none) : Turn m x s (.unanswered (.exchange x)) (.waiting (.fetchingNonce x), s)
  | removed (a : Except VaultError Unit) :
      Turn m x s (.answered (.removingOld x) a) (.waiting (.fetchingNonce x), s.recordRemoval a)
  | asks (nonce : String) :
      Turn m x s (.answered (.fetchingNonce x) (Except.ok nonce))
        (.waiting (.enrolling x (.ofParams nonce x.params)), s)
  | seals {request : Request} {r : Response} {c : Credential} {cipher : Cipher} (hm : m.cipher = some cipher)
      (ha : m.config.accept x.params r s.now = .ok c) (hc : s.slot.isCurrent x.ticket = true) :
      Turn m x s (.answered (.enrolling x request) (Except.ok r))
        (.waiting (.saving x c (cipher.encloseValue Credential.codec s.nonces c).1),
          { s with nonces := (cipher.encloseValue Credential.codec s.nonces c).2 })
  | caches {f : Phase m} {c : Credential} {s' : Scene} (hf : Yield m x s f c) (hc : s.slot.isCurrent x.ticket = true)
      (hs : s'.slot = (s.slot.fill c).release x.ticket) : Turn m x s f (.finished (.ok (some c.headerValue)), s')
  | givesUp {f : Phase m} {e : AuthError} {s' : Scene} (hm : m.cipher.isSome = true) (hf : Cause m x s f e)
      (hs : s'.slot = s.slot) : Turn m x s f (.waiting (.cleaningUp x e), s')
  | fails {f : Phase m} {e : AuthError} {s' : Scene} (hm : m.cipher = none) (hf : Cause m x s f e)
      (hs : s'.slot = s.slot.release x.ticket) :
      Turn m x s f (.finished (.error (if s.slot.isCurrent x.ticket then e else .cancelled)), s')
  | ends (e : AuthError) (a : Except VaultError Unit) {s' : Scene} (hs : s'.slot = s.slot.release x.ticket) :
      Turn m x s (.answered (.cleaningUp x e) a)
        (.finished (.error (if s.slot.isCurrent x.ticket then e else .cancelled)), s')

/-- How a poll carries on a task without an exchange. -/
inductive SideTurn (m : Manager) (s : Scene) : Phase m → Run → Prop where
  | refused (e : AuthError) : SideTurn m s (.unanswered (.refused e)) (.finished (.error e), s)
  | clears (hm : m.cipher.isSome = true) :
      SideTurn m s (.unanswered .clear) (.waiting .removing, { s with slot := s.slot.clear })
  | cleared {s' : Scene} (hm : m.cipher = none) (hs : s'.slot = s.slot.clear) :
      SideTurn m s (.unanswered .clear) (.finished (.ok none), s')
  | removed {s' : Scene} (hs : s'.slot = s.slot) :
      SideTurn m s (.answered .removing (Except.ok ())) (.finished (.ok none), s')
  | remains (e : VaultError) :
      SideTurn m s (.answered .removing (Except.error e)) (.finished (.error (.vault .removing e)), s)
  | loads (hm : m.cipher.isSome = true) (hf : s.slot.inFlight = none) :
      SideTurn m s (.unanswered .restore) (.waiting (.loading s.slot.generation), s)
  | declines {o : Outcome} (ho : o = .ok none ∨ o = .error .busy) :
      SideTurn m s (.unanswered .restore) (.finished o, s)
  | restores {blob : String} {c : Credential} {s' : Scene} (hr : m.revealed (some blob) = .ok (some c))
      (hf : s.slot.inFlight = none) (hs : s'.slot = s.slot.fill c) :
      SideTurn m s (.answered (.loading s.slot.generation) (Except.ok (some blob)))
        (.finished (.ok (some c.headerValue)), s')
  | misses (g : Nat) (a : Except VaultError (Option String)) {o : Outcome} (ho : ∀ h, o ≠ .ok (some h)) :
      SideTurn m s (.answered (.loading g) a) (.finished o, s)
  | discards (g : Nat) (a : Except VaultError (Option String)) (e : VaultError) :
      SideTurn m s (.answered (.loading g) a) (.waiting (.discarding e), s)
  | discarded (e : VaultError) (a : Except VaultError Unit) :
      SideTurn m s (.answered (.discarding e) a) (.finished (.error (.vault .restoring e)), s.recordRemoval a)

@[simp] theorem recordRemoval_slot (s : Scene) (r : Except VaultError Unit) : (s.recordRemoval r).slot = s.slot := by
  cases r <;> rfl

theorem release_generation (slot : Slot) (t : Nat) : (slot.release t).generation = slot.generation := by
  unfold Slot.release
  split <;> rfl

theorem release_credential (slot : Slot) (t : Nat) : (slot.release t).credential = slot.credential := by
  unfold Slot.release
  split <;> rfl

theorem drop_generation (t : Task) (slot : Slot) : (t.drop slot).generation = slot.generation := by
  unfold Task.drop
  split
  · exact release_generation _ _
  · rfl

theorem drop_credential (t : Task) (slot : Slot) : (t.drop slot).credential = slot.credential := by
  unfold Task.drop
  split
  · exact release_credential _ _
  · rfl

/-- Ending without a credential releases the guard, and tells the failure as it is only while the exchange is
current. -/
theorem fail_eq (x : Exchange) (e : AuthError) (s : Scene) :
    x.fail e s = (.finished (.error (if s.slot.isCurrent x.ticket then e else .cancelled)),
      { s with slot := s.slot.release x.ticket }) := rfl

/-- A failure within an exchange waits for a last removal if there is a store, and ends it at once otherwise. -/
theorem giveUp_turn {x : Exchange} {s : Scene} {f : Phase m} {e : AuthError} (hf : Cause m x s f e) :
    Turn m x s f (m.giveUp x e s) := by
  unfold Manager.giveUp
  cases hm : m.cipher with
  | none => exact Turn.fails hm hf rfl
  | some cipher => exact Turn.givesUp (by rw [hm]; rfl) hf rfl

/-- A saved credential is cached only while the exchange is current. -/
theorem cache_saved_turn (x : Exchange) (c : Credential) (blob : String) (s : Scene) :
    Turn m x s (.answered (.saving x c blob) (Except.ok ())) (m.cache x c s) := by
  unfold Manager.cache
  cases hc : s.slot.isCurrent x.ticket with
  | true => exact Turn.caches (Yield.saved c blob) hc rfl
  | false => exact giveUp_turn (Cause.late hc)

/-- An accepted credential is kept only while the exchange is current: it is saved first if there is a store. -/
theorem keep_turn {x : Exchange} {request : Request} {r : Response} {c : Credential} {s : Scene}
    (ha : m.config.accept x.params r s.now = .ok c) :
    Turn m x s (.answered (.enrolling x request) (Except.ok r)) (m.keep x c s) := by
  unfold Manager.keep
  cases hc : s.slot.isCurrent x.ticket with
  | false => exact giveUp_turn (Cause.early ha hc)
  | true =>
    cases hm : m.cipher with
    | some cipher => exact Turn.seals hm ha hc
    | none =>
      unfold Manager.cache
      simp only [hc, if_true]
      exact Turn.caches (Yield.unsaved hm ha) hc rfl

/-- A poll that takes the answer to a call of an exchange. -/
theorem resume_turn {stage : Stage} {x : Exchange} (hx : stage.exchange? = some x) (answer : (stage.call m).Answer)
    (s : Scene) : Turn m x s (.answered stage answer) (stage.resume m answer s) := by
  cases stage with
  | removingOld y =>
    cases hx
    exact Turn.removed answer
  | fetchingNonce y =>
    cases hx
    rcases (answer : Except TransportError String) with e | nonce
    · exact giveUp_turn (Cause.nonce e)
    · exact Turn.asks nonce
  | enrolling y request =>
    cases hx
    rcases (answer : Except TransportError Response) with e | r
    · exact giveUp_turn (Cause.enroll request e)
    · cases ha : m.config.accept x.params r s.now with
      | error e =>
        simp only [Stage.resume, ha]
        exact giveUp_turn (Cause.rejected ha)
      | ok c =>
        simp only [Stage.resume, ha]
        exact keep_turn ha
  | saving y c blob =>
    cases hx
    rcases (answer : Except VaultError Unit) with e | u
    · exact giveUp_turn (Cause.save c blob e)
    · exact cache_saved_turn x c blob s
  | cleaningUp y e =>
    cases hx
    have h : Stage.resume m (.cleaningUp x e) answer s =
        (.finished (.error (if s.slot.isCurrent x.ticket then e else .cancelled)),
          { s.recordRemoval answer with slot := s.slot.release x.ticket }) := by
      have hs : (s.recordRemoval answer).slot = s.slot := recordRemoval_slot s answer
      simp only [Stage.resume, fail_eq]
      rw [hs]
    rw [h]
    exact Turn.ends e answer rfl
  | removing => cases hx
  | loading g => cases hx
  | discarding e => cases hx

/-- A poll that takes the answer to a call of a task without an exchange. -/
theorem resume_sideTurn {stage : Stage} (hx : stage.exchange? = none) (answer : (stage.call m).Answer) (s : Scene) :
    SideTurn m s (.answered stage answer) (stage.resume m answer s) := by
  have hfail : ∀ (g : Nat) (a : Except VaultError (Option String)) (e : VaultError),
      SideTurn m s (.answered (.loading g) a) (Restoration.fail e s) := by
    intro g a e
    unfold Restoration.fail
    split
    · exact SideTurn.discards g a e
    · exact SideTurn.misses g a (fun h => by simp)
  cases stage with
  | removing =>
    rcases (answer : Except VaultError Unit) with e | u
    · exact SideTurn.remains e
    · exact SideTurn.removed rfl
  | loading g =>
    rcases (answer : Except VaultError (Option String)) with e | entry
    · exact hfail g _ e
    · cases hr : m.revealed entry with
      | error e =>
        simp only [Stage.resume, hr]
        exact hfail g _ e
      | ok found =>
        cases found with
        | none =>
          simp only [Stage.resume, hr]
          exact SideTurn.misses g _ (fun h => by simp)
        | some c =>
          simp only [Stage.resume, hr, Restoration.finish]
          split
          · exact SideTurn.misses g _ (fun h => by simp)
          · rename_i hg
            rw [not_or, not_not, Bool.not_eq_true, Option.isSome_eq_false_iff, Option.isNone_iff_eq_none] at hg
            cases entry with
            | none => cases hr
            | some blob =>
              obtain ⟨rfl, hf⟩ := hg
              exact SideTurn.restores hr hf rfl
  | discarding e => exact SideTurn.discarded e answer
  | removingOld x => cases hx
  | fetchingNonce x => cases hx
  | enrolling x request => cases hx
  | saving x c blob => cases hx
  | cleaningUp x e => cases hx

/-- Every poll of an exchange is a turn. -/
theorem run?_turn {f : Phase m} {x : Exchange} {s : Scene} {run : Run} (hx : f.task.exchange? = some x)
    (hr : f.run? s = some run) : Turn m x s f run := by
  cases f with
  | answered stage answer =>
    cases hr
    exact resume_turn hx answer s
  | unanswered t =>
    cases t with
    | exchange y =>
      cases hx
      cases hr
      simp only [Task.start, Manager.startExchange]
      cases hm : m.cipher with
      | none => exact Turn.starts hm
      | some cipher => exact Turn.removes (by rw [hm]; rfl)
    | waiting stage => cases hr
    | refused e => cases hx
    | clear => cases hx
    | restore => cases hx

/-- Every poll of anything else is a turn of its own kind. -/
theorem run?_sideTurn {f : Phase m} {s : Scene} {run : Run} (hx : f.task.exchange? = none)
    (hr : f.run? s = some run) : SideTurn m s f run := by
  cases f with
  | answered stage answer =>
    cases hr
    exact resume_sideTurn hx answer s
  | unanswered t =>
    cases t with
    | refused e =>
      cases hr
      exact SideTurn.refused e
    | exchange y => cases hx
    | clear =>
      cases hr
      simp only [Task.start, Manager.startClear]
      cases hm : m.cipher with
      | none => exact SideTurn.cleared hm rfl
      | some cipher => exact SideTurn.clears (by rw [hm]; rfl)
    | restore =>
      cases hr
      simp only [Task.start, Manager.startRestore]
      cases hm : m.cipher with
      | none => exact SideTurn.declines (Or.inl rfl)
      | some cipher =>
        cases hf : s.slot.inFlight with
        | none => exact SideTurn.loads (by rw [hm]; rfl) hf
        | some t => exact SideTurn.declines (Or.inr rfl)
    | waiting stage => cases hr

/-! ## What becomes of the slot -/

/-- A removal that is to end as cancelled is that of an exchange that was superseded. -/
def Stage.Honest (stage : Stage) (slot : Slot) : Prop :=
  ∀ x, stage = .cleaningUp x .cancelled → slot.isCurrent x.ticket = false

/-- An exchange that gives up as cancelled was superseded. -/
theorem Cause.isCurrent {x : Exchange} {s : Scene} {f : Phase m} {e : AuthError} (h : Cause m x s f e)
    (he : e = .cancelled) : s.slot.isCurrent x.ticket = false := by
  cases h with
  | nonce e => cases he
  | enroll request e => cases he
  | rejected ha => exact absurd (he ▸ ha) (Config.accept_ne_cancelled _ _ _ _)
  | early _ hc => exact hc
  | save c blob e => cases he
  | late hc => exact hc

namespace Turn

variable {x : Exchange} {s s' : Scene} {f : Phase m}

/-- An exchange that goes on leaves the slot alone. -/
theorem waiting {stage : Stage} (h : Turn m x s f (.waiting stage, s')) :
    stage.exchange? = some x ∧ Stage.Honest stage s.slot ∧ s'.slot = s.slot := by
  cases h with
  | removes _ => exact ⟨rfl, (fun _ h => by cases h), rfl⟩
  | starts _ => exact ⟨rfl, (fun _ h => by cases h), rfl⟩
  | removed a => exact ⟨rfl, (fun _ h => by cases h), recordRemoval_slot s a⟩
  | asks nonce => exact ⟨rfl, (fun _ h => by cases h), rfl⟩
  | seals _ _ _ => exact ⟨rfl, (fun _ h => by cases h), rfl⟩
  | givesUp _ hf hs =>
    refine ⟨rfl, fun y hy => ?_, hs⟩
    injection hy with hx he
    exact hx ▸ hf.isCurrent he

/-- An exchange that ends has failed and releases its guard, as cancelled exactly when it was superseded, or it is
current and fills the slot as well. -/
theorem finished {o : Outcome} (h : Turn m x s f (.finished o, s'))
    (hh : ∀ stage, f.task = .waiting stage → Stage.Honest stage s.slot) :
    (∃ e, o = .error e ∧ (e = .cancelled ↔ s.slot.isCurrent x.ticket = false) ∧ s'.slot = s.slot.release x.ticket) ∨
    ∃ c, o = .ok (some c.headerValue) ∧ Yield m x s f c ∧ s.slot.isCurrent x.ticket = true ∧
      s'.slot = (s.slot.fill c).release x.ticket := by
  have htold : ∀ e : AuthError, (e = .cancelled → s.slot.isCurrent x.ticket = false) →
      ((if s.slot.isCurrent x.ticket then e else .cancelled) = .cancelled ↔ s.slot.isCurrent x.ticket = false) := by
    intro e he
    cases hc : s.slot.isCurrent x.ticket with
    | true =>
      rw [hc] at he
      simpa using he
    | false => simp
  cases h with
  | caches hf hc hs => exact Or.inr ⟨_, rfl, hf, hc, hs⟩
  | fails _ hf hs => exact Or.inl ⟨_, rfl, htold _ hf.isCurrent, hs⟩
  | ends e a hs =>
    refine Or.inl ⟨_, rfl, htold e (fun he => ?_), hs⟩
    subst he
    exact hh _ rfl x rfl

/-- An exchange never gives the slot another generation. -/
theorem generation {run : Run} (h : Turn m x s f run) : run.2.slot.generation = s.slot.generation := by
  cases h with
  | removes _ => rfl
  | starts _ => rfl
  | removed a => rw [recordRemoval_slot]
  | asks nonce => rfl
  | seals _ _ _ => rfl
  | caches _ _ hs =>
    rw [hs]
    exact release_generation _ _
  | givesUp _ _ hs => rw [hs]
  | fails _ _ hs =>
    rw [hs]
    exact release_generation _ _
  | ends e a hs =>
    rw [hs]
    exact release_generation _ _

end Turn

namespace SideTurn

variable {s s' : Scene} {f : Phase m} {run : Run}

/-- What goes on without an exchange never comes to have one. -/
theorem waiting {stage : Stage} (h : SideTurn m s f (.waiting stage, s')) : stage.exchange? = none := by
  cases h <;> rfl

/-- Without an exchange the slot is cleared by the first step of a clear, filled by a restore, or left alone. -/
theorem slot (h : SideTurn m s f run) :
    (f.task ≠ .clear ∧ run.2.slot = s.slot) ∨ (f.task = .clear ∧ run.2.slot = s.slot.clear) ∨
      ∃ blob c, m.revealed (some blob) = .ok (some c) ∧ s.slot.inFlight = none ∧
        f = .answered (.loading s.slot.generation) (Except.ok (some blob)) ∧ run.2.slot = s.slot.fill c := by
  cases h with
  | refused e => exact Or.inl ⟨by simp [Phase.task], rfl⟩
  | clears _ => exact Or.inr (Or.inl ⟨rfl, rfl⟩)
  | cleared _ hs => exact Or.inr (Or.inl ⟨rfl, hs⟩)
  | removed hs => exact Or.inl ⟨by simp [Phase.task], hs⟩
  | remains e => exact Or.inl ⟨by simp [Phase.task], rfl⟩
  | loads _ _ => exact Or.inl ⟨by simp [Phase.task], rfl⟩
  | declines _ => exact Or.inl ⟨by simp [Phase.task], rfl⟩
  | restores hr hf hs => exact Or.inr (Or.inr ⟨_, _, hr, hf, rfl, hs⟩)
  | misses g a _ => exact Or.inl ⟨by simp [Phase.task], rfl⟩
  | discards g a e => exact Or.inl ⟨by simp [Phase.task], rfl⟩
  | discarded e a => exact Or.inl ⟨by simp [Phase.task], recordRemoval_slot s a⟩

/-- The guard is left alone without an exchange. -/
theorem inFlight (h : SideTurn m s f run) : run.2.slot.inFlight = s.slot.inFlight := by
  rcases h.slot with ⟨-, hs⟩ | ⟨-, hs⟩ | ⟨blob, c, -, -, -, hs⟩ <;> rw [hs] <;> rfl

theorem generation_le (h : SideTurn m s f run) : s.slot.generation ≤ run.2.slot.generation := by
  rcases h.slot with ⟨-, hs⟩ | ⟨-, hs⟩ | ⟨blob, c, -, -, -, hs⟩
  · exact Nat.le_of_eq (by rw [hs])
  · rw [hs]
    exact Nat.le_succ _
  · exact Nat.le_of_eq (by rw [hs]; rfl)

end SideTurn

/-- A poll that leaves a future waiting leaves it at what it was made for. -/
theorem run?_origin {f : Phase m} {stage : Stage} {s s' : Scene} (hr : f.run? s = some (.waiting stage, s')) :
    (Task.waiting stage).origin = f.task.origin := by
  cases hx : f.task.exchange? with
  | some x =>
    have hstage : (Task.waiting stage).exchange? = some x := (run?_turn hx hr).waiting.1
    rw [(Task.exchange?_iff_origin _ x).1 hstage, (Task.exchange?_iff_origin _ x).1 hx]
  | none =>
    cases run?_sideTurn hx hr with
    | clears _ => rfl
    | loads _ _ => rfl
    | discards g a e => rfl

/-- A poll that comes to a stage of an exchange is a turn of that exchange. -/
theorem run?_turn_of_stage {f : Phase m} {stage : Stage} {x : Exchange} {s s' : Scene}
    (hr : f.run? s = some (.waiting stage, s')) (hx : stage.exchange? = some x) :
    Turn m x s f (.waiting stage, s') := by
  refine run?_turn ?_ hr
  rw [Task.exchange?_iff_origin, ← run?_origin hr, ← Task.exchange?_iff_origin]
  exact hx

/-- Only the first poll of an exchange comes to the removal of the old entry. -/
theorem run?_removingOld {f : Phase m} {x : Exchange} {s s' : Scene}
    (hr : f.run? s = some (.waiting (.removingOld x), s')) : f = .unanswered (.exchange x) := by
  cases run?_turn_of_stage hr rfl with
  | removes _ => rfl

/-- An exchange comes to ask for a nonce by its first poll or after the removal of the old entry. -/
theorem run?_fetchingNonce {f : Phase m} {x : Exchange} {s s' : Scene}
    (hr : f.run? s = some (.waiting (.fetchingNonce x), s')) :
    f = .unanswered (.exchange x) ∨ ∃ a, f = .answered (.removingOld x) a := by
  cases run?_turn_of_stage hr rfl with
  | starts _ => exact Or.inl rfl
  | removed a => exact Or.inr ⟨a, rfl⟩

/-- An exchange sends the request that its parameters and the nonce make. -/
theorem run?_enrolling {f : Phase m} {x : Exchange} {request : Request} {s s' : Scene}
    (hr : f.run? s = some (.waiting (.enrolling x request), s')) :
    ∃ nonce, f = .answered (.fetchingNonce x) (Except.ok nonce) ∧ request = .ofParams nonce x.params := by
  cases run?_turn_of_stage hr rfl with
  | asks nonce => exact ⟨nonce, rfl, rfl⟩

/-- An exchange that removes what it may have saved has a cause to give up. -/
theorem run?_cleaningUp {f : Phase m} {x : Exchange} {e : AuthError} {s s' : Scene}
    (hr : f.run? s = some (.waiting (.cleaningUp x e), s')) : Cause m x s f e := by
  cases run?_turn_of_stage hr rfl with
  | givesUp _ hf _ => exact hf

/-- Only an accepted enrollment comes to be saved. -/
theorem run?_saving {f : Phase m} {x : Exchange} {c : Credential} {blob : String} {s s' : Scene}
    (hr : f.run? s = some (.waiting (.saving x c blob), s')) :
    ∃ request r cipher, f = .answered (.enrolling x request) (Except.ok r) ∧
      m.config.accept x.params r s.now = .ok c ∧ m.cipher = some cipher ∧
      blob = (cipher.encloseValue Credential.codec s.nonces c).1 := by
  cases run?_turn_of_stage hr rfl with
  | seals hm ha _ => exact ⟨_, _, _, rfl, ha, hm, rfl⟩

/-- Only the first step of a clear comes to wait for the removal. -/
theorem run?_removing {f : Phase m} {s s' : Scene} (hr : f.run? s = some (.waiting .removing, s')) :
    f = .unanswered .clear := by
  cases hx : f.task.exchange? with
  | some x => cases (run?_turn hx hr).waiting.1
  | none =>
    cases run?_sideTurn hx hr with
    | clears _ => rfl

/-- Only the first step of a restore comes to wait for a load, while no guard is held, and it notes the generation. -/
theorem run?_loading {f : Phase m} {g : Nat} {s s' : Scene} (hr : f.run? s = some (.waiting (.loading g), s')) :
    f = .unanswered .restore ∧ g = s.slot.generation ∧ s.slot.inFlight = none ∧ s'.slot = s.slot := by
  cases hx : f.task.exchange? with
  | some x => cases (run?_turn hx hr).waiting.1
  | none =>
    cases run?_sideTurn hx hr with
    | loads _ hf => exact ⟨rfl, rfl, hf, rfl⟩

end Interleaving

end ClientAuth
