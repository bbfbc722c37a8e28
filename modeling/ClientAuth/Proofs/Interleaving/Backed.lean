import ClientAuth.Proofs.Interleaving.Envelopes

/-!
# The entry behind a cached credential

A credential comes into the slot from an exchange that has saved it or from a restore that has loaded it. The entry that
was saved or loaded then stays until the next exchange, unless a removal takes it away that was on its way before: that
of a clear, or of a restore which has found an entry that cannot be used (`Outdated`). `Backed` says so of the slot and
of all that is about to come into it, in every interleaving of a store whose failing operations change nothing.
-/

namespace ClientAuth

/-- A store in which an operation that fails leaves the entry as it was. -/
structure Backing.Steady {σ : Type} (b : Backing σ) (view : σ → String → Option String) : Prop where
  save : ∀ s key blob e s', b.save s key blob = (.error e, s') → view s' key = view s key
  remove : ∀ s key e s', b.remove s key = (.error e, s') → view s' key = view s key

/-- In a store that behaves as a map nothing fails. -/
theorem Backing.IsMap.steady {σ : Type} {b : Backing σ} {view : σ → String → Option String} (h : b.IsMap view) :
    b.Steady view := by
  refine ⟨?_, ?_⟩
  · intro s key blob e s' hsave
    cases (h.save s key blob).1.symm.trans (congrArg Prod.fst hsave)
  · intro s key e s' hremove
    cases (h.remove s key).1.symm.trans (congrArg Prod.fst hremove)

/-- In the store in memory nothing fails. -/
theorem Backing.memory_steady : Backing.memory.Steady Entries.get? :=
  Backing.memory_isMap.steady

/-- A steady store stays so when some of its operations are made to fail. -/
theorem Backing.Steady.failing {σ : Type} {b : Backing σ} {view : σ → String → Option String} (h : b.Steady view)
    (f : Faults) : (b.failing f).Steady view := by
  refine ⟨?_, ?_⟩
  · intro s key blob e s' hs
    rcases b.failing_save_cases f s key blob with he | ⟨e', he⟩
    · exact h.save s key blob e s' (he.symm.trans hs)
    · cases he.symm.trans hs
      rfl
  · intro s key e s' hs
    rcases b.failing_remove_cases f s key with he | ⟨e', he⟩
    · exact h.remove s key e s' (he.symm.trans hs)
    · cases he.symm.trans hs
      rfl

namespace Interleaving

variable {m : Manager} {σ : Type} {b : Backing σ} {view : σ → String → Option String}

/-- A call saves an entry, removes it, or leaves it as it was. -/
theorem view_performed (hb : b.Lawful view) (i : Nat) (w : Weather) (store : σ) (stage : Stage)
    (hw : b.Steady view ∨ (stage.call m).Succeeds ((w.world b store).answer (stage.call m)).1) :
    (∃ x c blob, stage = .saving x c blob ∧
      Event.performed i (stage.call m) ((w.world b store).answer (stage.call m)).1 = .saved m i blob ∧
      view ((w.world b store).answer (stage.call m)).2 m.config.storageKey = some blob) ∨
    (stage.call m = .remove m.config.storageKey ∧
      Event.performed i (stage.call m) ((w.world b store).answer (stage.call m)).1 = .removed m i ∧
      view ((w.world b store).answer (stage.call m)).2 m.config.storageKey = none) ∨
    view ((w.world b store).answer (stage.call m)).2 m.config.storageKey = view store m.config.storageKey := by
  have hlaw := hb.failing w.faults
  have hsteady : ∀ {p : Prop}, b.Steady view ∨ p → (b.failing w.faults).Steady view ∨ p :=
    fun h => h.imp_left fun h => h.failing w.faults
  -- all removals are alike
  have hremove : (b.failing w.faults).Steady view ∨ ((b.failing w.faults).remove store m.config.storageKey).1 = .ok () →
      (Event.performed i (.remove m.config.storageKey) ((b.failing w.faults).remove store m.config.storageKey).1 =
        .removed m i ∧ view ((b.failing w.faults).remove store m.config.storageKey).2 m.config.storageKey = none) ∨
      view ((b.failing w.faults).remove store m.config.storageKey).2 m.config.storageKey =
        view store m.config.storageKey := by
    intro h
    cases hr : (b.failing w.faults).remove store m.config.storageKey with
    | mk r s' =>
      cases r with
      | ok u => exact Or.inl ⟨rfl, hlaw.remove store _ s' hr⟩
      | error e =>
        rcases h with h | h
        · exact Or.inr (h.remove store _ e s' hr)
        · rw [hr] at h
          cases h
  cases stage with
  | saving x c blob =>
    have hw' : (b.failing w.faults).Steady view ∨
        ((b.failing w.faults).save store m.config.storageKey blob).1 = .ok () := hsteady hw
    change (∃ _ _ _, _ ∧ Event.performed i (.save m.config.storageKey blob)
      ((b.failing w.faults).save store m.config.storageKey blob).1 = _ ∧
      view ((b.failing w.faults).save store m.config.storageKey blob).2 _ = _) ∨ _ ∨
      view ((b.failing w.faults).save store m.config.storageKey blob).2 _ = _
    cases hs : (b.failing w.faults).save store m.config.storageKey blob with
    | mk r s' =>
      cases r with
      | ok u => exact Or.inl ⟨x, c, blob, rfl, rfl, hlaw.save store _ blob s' hs⟩
      | error e =>
        rcases hw' with h | h
        · exact Or.inr (Or.inr (h.save store _ blob e s' hs))
        · rw [hs] at h
          cases h
  | removingOld x => exact Or.inr ((hremove (hsteady hw)).imp_left fun h => ⟨rfl, h⟩)
  | cleaningUp x e => exact Or.inr ((hremove (hsteady hw)).imp_left fun h => ⟨rfl, h⟩)
  | removing => exact Or.inr ((hremove (hsteady hw)).imp_left fun h => ⟨rfl, h⟩)
  | discarding e => exact Or.inr ((hremove (hsteady hw)).imp_left fun h => ⟨rfl, h⟩)
  | fetchingNonce x => exact Or.inr (Or.inr rfl)
  | enrolling x request => exact Or.inr (Or.inr rfl)
  | loading g => exact Or.inr (Or.inr rfl)

/-! ## A slot with a guard is vacant -/

theorem release_inFlight_le {slot : Slot} {t u : Nat} (h : (slot.release t).inFlight = some u) :
    slot.inFlight = some u := by
  unfold Slot.release at h
  split at h
  · cases h
  · exact h

theorem drop_inFlight_le {t : Task} {slot : Slot} {u : Nat} (h : (t.drop slot).inFlight = some u) :
    slot.inFlight = some u := by
  unfold Task.drop at h
  cases ht : t.ticket? with
  | none => rwa [ht] at h
  | some ticket =>
    rw [ht] at h
    exact release_inFlight_le h

/-- No credential is in use while an exchange holds the guard. -/
def Vacant (s : State m σ) : Prop := ∀ t, s.slot.inFlight = some t → s.slot.credential = none

namespace Vacant

variable {s s' : State m σ}

/-- A poll leaves the slot vacant while the guard is held. -/
theorem polls (g : Guarded s) (v : Vacant s) {i : Nat} {f : Future m} {now : Instant} {run : Run}
    (hf : s.futures i = some f) (hr : f.phase.run? (s.scene now) = some run) {t : Nat}
    (ht : run.2.slot.inFlight = some t) : run.2.slot.credential = none := by
  cases hx : f.phase.task.exchange? with
  | some x =>
    have hturn := run?_turn hx hr
    obtain ⟨p, s₁⟩ := run
    cases p with
    | waiting stage =>
      rw [hturn.waiting.2.2] at ht ⊢
      exact v t ht
    | finished o =>
      rcases hturn.finished (fun stage => g.honest i f stage hf) with ⟨e, -, -, hs⟩ | ⟨c, -, -, -, hs⟩
      · rw [hs] at ht ⊢
        rw [release_credential]
        exact v t (release_inFlight_le ht)
      · rw [hs] at ht
        have hheld : s.slot.inFlight = some x.ticket :=
          g.held i x (by rw [State.exchange?_of_future hf]; exact hx)
        have hnone : ((s.slot.fill c).release x.ticket).inFlight = none := by
          unfold Slot.release
          rw [if_pos (show (s.slot.fill c).inFlight = some x.ticket from hheld)]
        cases hnone.symm.trans ht
  | none =>
    rcases (run?_sideTurn hx hr).slot with ⟨-, hs⟩ | ⟨-, hs⟩ | ⟨blob, c, -, hnone, -, hs⟩
    · rw [hs] at ht ⊢
      exact v t ht
    · rw [hs]
      rfl
    · rw [hs] at ht
      cases hnone.symm.trans ht

theorem change (g : Guarded s) (v : Vacant s) {move : Move} (h : State.Change b s move s') : Vacant s' := by
  intro t ht
  cases h with
  | begins _ _ => rfl
  | drops _ => exact (drop_credential _ _).trans (v t (drop_inFlight_le ht))
  | cutsOff _ _ => exact (drop_credential _ _).trans (v t (drop_inFlight_le ht))
  | polls hf _ hr =>
    rw [State.settle_slot] at ht ⊢
    exact v.polls g hf hr ht
  | _ => exact v t ht

/-- In every interleaving the slot is vacant while the guard is held. -/
theorem run (b : Backing σ) (store : σ) (nonces : Nonces) (moves : List Move) :
    Vacant ((State.new store nonces : State m σ).run b moves) :=
  State.new_run_induction (fun _ _ => rfl)
    (fun moves _ v => v.change (Guarded.run b store nonces moves) (State.step_change b _ _)) moves

end Vacant

/-! ## Restores that are to remove an entry -/

/-- The answer to a load tells that the entry cannot be used. -/
def Flawed (m : Manager) (a : Except VaultError (Option String)) (e : VaultError) : Prop :=
  e.isEntryUnusable = true ∧ (a = .error e ∨ ∃ entry, a = .ok entry ∧ m.revealed entry = .error e)

/-- A restore comes to remove an entry only after its load has told that it cannot be used. -/
theorem run?_discarding {f : Phase m} {e : VaultError} {s s' : Scene}
    (hr : f.run? s = some (.waiting (.discarding e), s')) :
    ∃ g a, f = .answered (.loading g) a ∧ Flawed m a e := by
  have hfail : ∀ e', Restoration.fail e' s = (.waiting (.discarding e), s') → e' = e ∧ e.isEntryUnusable = true := by
    intro e' h
    unfold Restoration.fail at h
    split at h
    · rename_i hu
      injection h with h _
      injection h with h
      injection h with h
      exact ⟨h, h ▸ hu⟩
    · cases h
  cases hx : f.task.exchange? with
  | some x => cases (run?_turn hx hr).waiting.1
  | none =>
    cases run?_sideTurn hx hr with
    | discards g a _ =>
      refine ⟨g, a, rfl, ?_⟩
      have hresume : Stage.resume m (.loading g) a s = (.waiting (.discarding e), s) := Option.some.inj hr
      rcases a with e' | entry
      · obtain ⟨rfl, hu⟩ := hfail e' hresume
        exact ⟨hu, Or.inl rfl⟩
      · cases hrev : m.revealed entry with
        | error e' =>
          simp only [Stage.resume, hrev] at hresume
          obtain ⟨rfl, hu⟩ := hfail e' hresume
          exact ⟨hu, Or.inr ⟨entry, rfl, hrev⟩⟩
        | ok found =>
          simp only [Stage.resume, hrev] at hresume
          cases found with
          | none => cases hresume
          | some c =>
            simp only [Restoration.finish] at hresume
            split at hresume <;> cases hresume

/-- Whether a future is about to remove an entry that cannot be used. -/
def Phase.Discards (f : Phase m) : Prop :=
  (∃ e, f.task = .waiting (.discarding e)) ∨ ∃ g a e, f = .answered (.loading g) a ∧ Flawed m a e

/-- What is about to remove an entry has had a load that told that it cannot be used. -/
theorem Course.load_of_discards {i : Nat} {f : Phase m} {es : List Event} (hc : Course m i f es) (hd : f.Discards) :
    ∃ a e, Flawed m a e ∧ .performed i (.load m.config.storageKey) a ∈ es := by
  have hloaded : ∀ {g a e es}, Flawed m a e → Course m i (.answered (.loading g) a) es →
      ∃ a e, Flawed m a e ∧ .performed i (.load m.config.storageKey) a ∈ es := by
    intro g a e es hflaw hc
    obtain ⟨es', rfl, -⟩ := hc.of_answered
    exact ⟨a, e, hflaw, List.mem_cons_self⟩
  have hwait : ∀ {e es}, Course m i (.unanswered (.waiting (.discarding e))) es →
      ∃ a e, Flawed m a e ∧ .performed i (.load m.config.storageKey) a ∈ es := by
    intro e es hc
    obtain ⟨f, es', s, s', rfl, hc', hr⟩ := hc.of_waiting
    obtain ⟨g, a, rfl, hflaw⟩ := run?_discarding hr
    obtain ⟨a, e, hflaw, ha⟩ := hloaded hflaw hc'
    exact ⟨a, e, hflaw, List.mem_cons_of_mem _ ha⟩
  rcases hd with ⟨e, he⟩ | ⟨g, a, e, rfl, hflaw⟩
  · cases f with
    | unanswered t =>
      obtain rfl : t = .waiting (.discarding e) := he
      exact hwait hc
    | answered stage a =>
      obtain rfl : stage = .discarding e := Task.waiting.inj he
      obtain ⟨es', rfl, hc'⟩ := hc.of_answered
      obtain ⟨a, e, hflaw, ha⟩ := hwait hc'
      exact ⟨a, e, hflaw, List.mem_cons_of_mem _ ha⟩
  · exact hloaded hflaw hc

/-- What waits for the removal of a clear has had the first step of one. -/
theorem Course.ran_of_removing {i : Nat} {es : List Event} (hc : Course m i (.unanswered (.waiting .removing)) es) :
    ∃ now, .ran i .clear now ∈ es := by
  obtain ⟨f, es', s, s', rfl, -, hr⟩ := hc.of_waiting
  obtain rfl := run?_removing hr
  exact ⟨s.now, List.mem_cons_self⟩

/-! ## The entry that a credential came from -/

/-- A removal by a future does not concern the entry that an event has written or found: the future is another one, and
before that event it had given a credential up, or its load had told that the entry cannot be used. Or its load has
failed since as if that were so. -/
def Outdated (m : Manager) (h : List Event) (e : Event) (k : Nat) : Prop :=
  (k ≠ e.future ∧ ((∃ now, Before h (.ran k .clear now) e) ∨
    ∃ a err, Flawed m a err ∧ Before h (.performed k (.load m.config.storageKey) a) e)) ∨
  ∃ err : VaultError, err.isEntryUnusable = true ∧
    Before h e (.performed k (.load m.config.storageKey) (Except.error err))

theorem Outdated.mono {h h' : List Event} {e : Event} {k : Nat} (ho : Outdated m h e k) (hs : h <:+ h') :
    Outdated m h' e k := by
  rcases ho with ⟨hk, ⟨now, hb⟩ | ⟨a, err, hflaw, hb⟩⟩ | ⟨err, hu, hb⟩
  · exact Or.inl ⟨hk, Or.inl ⟨now, hb.mono hs⟩⟩
  · exact Or.inl ⟨hk, Or.inr ⟨a, err, hflaw, hb.mono hs⟩⟩
  · exact Or.inr ⟨err, hu, hb.mono hs⟩

/-- An entry that was saved or loaded is still there, or an outdated removal has taken it away since; every clear had
given its credential up before, and whatever is yet to remove an unusable entry is outdated. -/
structure Rests (view : σ → String → Option String) (s : State m σ) (e : Event) (blob : String) : Prop where
  source : (∃ i, e = .saved m i blob) ∨ ∃ j, e = .loaded m j blob
  mem : e ∈ s.history
  clears : ∀ k now, .ran k .clear now ∈ s.history → Before s.history (.ran k .clear now) e
  discards : ∀ k f, s.futures k = some f → f.phase.Discards → Outdated m s.history e k
  entry : view s.store m.config.storageKey = some blob ∨
    view s.store m.config.storageKey = none ∧ ∃ k, Outdated m s.history e k ∧ Before s.history e (.removed m k)

namespace Rests

variable {s s' : State m σ} {e : Event} {blob : String}

/-- What a load that finds a usable entry, or none, is answered with is not flawed. -/
theorem unusable_of_flawed (hb : b.Lawful view) (R : Rests view s e blob) {c : Credential}
    (hrev : m.revealed (some blob) = .ok (some c)) (w : Weather) {g : Nat} {err : VaultError}
    (hf : Flawed m ((w.world b s.store).answer ((Stage.loading g).call m)).1 err) :
    ((w.world b s.store).answer ((Stage.loading g).call m)).1 = Except.error err := by
  rcases hf.2 with ha | ⟨entry, ha, hr⟩
  · exact ha
  · rcases R.entry with hv | ⟨hv, -⟩
    · rw [view_load hb w s.store g ha, hv, hrev] at hr
      cases hr
    · rw [view_load hb w s.store g ha, hv] at hr
      cases hr

/-- What comes to remove an unusable entry is outdated for a usable one. -/
theorem change_discards (g : Guarded s) (hb : b.Lawful view) (R : Rests view s e blob) {c : Credential}
    (hrev : m.revealed (some blob) = .ok (some c)) {move : Move} (h : State.Change b s move s') {k : Nat}
    {f : Future m} (hf : s'.futures k = some f) (hd : f.phase.Discards) : Outdated m s'.history e k := by
  have hold : ∀ f, s.futures k = some f → f.phase.Discards → Outdated m s'.history e k :=
    fun f hf hd => (R.discards k f hf hd).mono h.history_suffix
  obtain ⟨phase, aborted⟩ := f
  have ha : Arrival b s s' k phase := h.arrival g hf
  cases ha with
  | @stays f hl _ => exact hold f hl hd
  | made _ hw _ =>
    rcases hd with ⟨err, he⟩ | ⟨g, a, err, he, -⟩
    · exact absurd he (hw _)
    · cases he
  | @performed w stage aborted' hl hs =>
    rcases hd with ⟨err, he⟩ | ⟨g, a, err, he, hflaw⟩
    · exact hold _ hl (Or.inl ⟨err, he⟩)
    · injection he with hstage hanswer
      subst hstage
      obtain rfl := eq_of_heq hanswer
      have herr := R.unusable_of_flawed hb hrev w hflaw
      refine Or.inr ⟨err, hflaw.1, ?_⟩
      rw [hs, State.perform_history, herr]
      exact before_cons.2 (Or.inr ⟨rfl, R.mem⟩)
  | @ran f now stage s₁ hl hr _ =>
    rcases hd with ⟨err, he⟩ | ⟨g, a, err, he, -⟩
    · obtain rfl := Task.waiting.inj he
      obtain ⟨g, a, hp, hflaw⟩ := run?_discarding hr
      exact hold f hl (Or.inr ⟨g, a, err, hp, hflaw⟩)
    · cases he

/-- The removal of a clear is outdated for an entry that no clear has given up. -/
theorem outdated_of_removing (ht : Traced s) (R : Rests view s e blob) {k : Nat} {aborted : Bool}
    (hf : s.futures k = some ⟨.unanswered (.waiting .removing), aborted⟩) : Outdated m s.history e k := by
  have hc := ht.live k _ hf
  obtain ⟨now, hran⟩ := hc.ran_of_removing
  refine Or.inl ⟨?_, Or.inl ⟨now, R.clears k now ((mem_own rfl).1 hran)⟩⟩
  rintro rfl
  rcases R.source with ⟨i, rfl⟩ | ⟨j, rfl⟩
  · obtain ⟨x, hx⟩ := hc.exchange_of_save ((mem_own rfl).2 R.mem)
    cases hx
  · cases hc.origin_of_load ((mem_own rfl).2 R.mem)

/-- While no exchange is to write, every change leaves the entry where it is, or is an outdated removal. -/
theorem change_entry (ht : Traced s) (hb : b.Lawful view) (hw : b.Steady view ∨ Flawless s'.history)
    (R : Rests view s e blob) {move : Move} (h : State.Change b s move s')
    (hidle : ∀ k stage aborted x, s.futures k = some ⟨.unanswered (.waiting stage), aborted⟩ →
      stage.exchange? ≠ some x) :
    view s'.store m.config.storageKey = some blob ∨ view s'.store m.config.storageKey = none ∧
      ∃ k, Outdated m s'.history e k ∧ Before s'.history e (.removed m k) := by
  have hs := h.history_suffix
  have hstill : view s'.store m.config.storageKey = view s.store m.config.storageKey →
      view s'.store m.config.storageKey = some blob ∨ view s'.store m.config.storageKey = none ∧
        ∃ k, Outdated m s'.history e k ∧ Before s'.history e (.removed m k) := by
    intro hv
    rw [hv]
    exact R.entry.imp_right fun ⟨hn, k, ho, hb⟩ => ⟨hn, k, ho.mono hs, hb.mono hs⟩
  rcases h.store_cases with ⟨hst, -⟩ | ⟨k, w, stage, aborted, hf, rfl⟩
  · exact hstill (by rw [hst])
  · have hsucceeds := hw.imp_right fun fl => fl k (stage.call m) _ List.mem_cons_self
    rcases view_performed hb k w s.store stage hsucceeds with ⟨x, c, blob', rfl, -, -⟩ | ⟨hcall, hremoved, hv⟩ | hv
    · exact absurd rfl (hidle k _ aborted x hf)
    · have hnew : Before (s.perform b k w stage aborted).history e (.removed m k) := by
        rw [State.perform_history, hremoved]
        exact before_cons.2 (Or.inr ⟨rfl, R.mem⟩)
      refine Or.inr ⟨hv, k, ?_, hnew⟩
      cases stage with
      | removing => exact (R.outdated_of_removing ht hf).mono hs
      | discarding err => exact (R.discards k _ hf (Or.inl ⟨err, rfl⟩)).mono hs
      | removingOld x => exact absurd rfl (hidle k _ aborted x hf)
      | cleaningUp x err => exact absurd rfl (hidle k _ aborted x hf)
      | fetchingNonce x => cases hcall
      | enrolling x request => cases hcall
      | saving x c blob' => cases hcall
      | loading g => cases hcall
    · exact hstill hv

/-- While no exchange is to write and no clear has its first step, every change keeps track of the entry. -/
theorem change (g : Guarded s) (ht : Traced s) (hb : b.Lawful view) (hw : b.Steady view ∨ Flawless s'.history)
    (R : Rests view s e blob) {c : Credential} (hrev : m.revealed (some blob) = .ok (some c)) {move : Move}
    (h : State.Change b s move s')
    (hclear : ∀ k now, .ran k .clear now ∈ s'.history → .ran k .clear now ∈ s.history)
    (hidle : ∀ k stage aborted x, s.futures k = some ⟨.unanswered (.waiting stage), aborted⟩ →
      stage.exchange? ≠ some x) : Rests view s' e blob where
  source := R.source
  mem := h.history_suffix.subset R.mem
  clears k now hr := (R.clears k now (hclear k now hr)).mono h.history_suffix
  discards _ _ hf hd := R.change_discards g hb hrev h hf hd
  entry := R.change_entry ht hb hw h hidle

/-- An entry that has just been saved or loaded is there. -/
theorem of_perform (ht : Traced s) {i : Nat} {w : Weather} {stage : Stage} {aborted : Bool}
    (he : Event.performed i (stage.call m) ((w.world b s.store).answer (stage.call m)).1 = e)
    (hsource : (∃ i, e = .saved m i blob) ∨ ∃ j, e = .loaded m j blob)
    (hnot : ¬(Phase.answered stage ((w.world b s.store).answer (stage.call m)).1 : Phase m).Discards)
    (hv : view (s.perform b i w stage aborted).store m.config.storageKey = some blob) :
    Rests view (s.perform b i w stage aborted) e blob := by
  have hh : (s.perform b i w stage aborted).history = e :: s.history := by
    rw [State.perform_history, he]
  have hbefore : ∀ e', e' ∈ s.history → Before (s.perform b i w stage aborted).history e' e := by
    intro e' hm
    rw [hh]
    exact before_cons.2 (Or.inr ⟨rfl, hm⟩)
  refine ⟨hsource, ?_, ?_, ?_, Or.inl hv⟩
  · rw [hh]
    exact List.mem_cons_self
  · intro k now hr
    refine hbefore _ ?_
    rw [State.perform_history, List.mem_cons] at hr
    exact hr.resolve_left (by simp)
  · intro k f hf hd
    by_cases hk : k = i
    · subst hk
      simp only [State.perform, Function.update_self, Option.some.injEq] at hf
      subst hf
      exact absurd hd hnot
    · simp only [State.perform, Function.update_of_ne hk] at hf
      obtain ⟨a, err, hflaw, hl⟩ := (ht.live k f hf).load_of_discards hd
      refine Or.inl ⟨?_, Or.inr ⟨a, err, hflaw, hbefore _ ((mem_own rfl).1 hl)⟩⟩
      rw [← he]
      exact hk

end Rests

/-- While no guard is held no exchange is to write. -/
theorem Guarded.idle {s : State m σ} (g : Guarded s) (hf : s.slot.inFlight = none) (k : Nat) (stage : Stage)
    (aborted : Bool) (x : Exchange) (hk : s.futures k = some ⟨.unanswered (.waiting stage), aborted⟩) :
    stage.exchange? ≠ some x := by
  intro hx
  have hlive : s.exchange? k = some x := by
    rw [State.exchange?_of_future hk]
    exact hx
  cases (g.exchange?_eq_none hf k).symm.trans hlive

/-- While an exchange is to be polled none is to write. -/
theorem Guarded.idle_of_answered {s : State m σ} (g : Guarded s) {i : Nat} {f : Future m} {stage : Stage}
    {a : (stage.call m).Answer} {y : Exchange} (hi : s.futures i = some f) (hp : f.phase = .answered stage a)
    (hy : stage.exchange? = some y) (k : Nat) (stage' : Stage) (aborted : Bool) (x : Exchange)
    (hk : s.futures k = some ⟨.unanswered (.waiting stage'), aborted⟩) : stage'.exchange? ≠ some x := by
  intro hx
  have hlive : s.exchange? k = some x := by
    rw [State.exchange?_of_future hk]
    exact hx
  have hlive' : s.exchange? i = some y := by
    rw [State.exchange?_of_future hi, hp]
    exact hy
  obtain rfl := g.unique hlive hlive'
  obtain rfl := Option.some.inj (hk.symm.trans hi)
  cases hp

/-- The credential in the slot, and what is about to come into it, have entries that were saved or loaded. -/
structure Backed (view : σ → String → Option String) (s : State m σ) : Prop where
  saving : ∀ i f x c blob, s.futures i = some f → f.phase = .answered (.saving x c blob) (Except.ok ()) →
    s.slot.isCurrent x.ticket = true → Rests view s (.saved m i blob) blob
  loading : ∀ j f blob c, s.futures j = some f →
    f.phase = .answered (.loading s.slot.generation) (Except.ok (some blob)) → m.revealed (some blob) = .ok (some c) →
    Rests view s (.loaded m j blob) blob
  slot : ∀ c, s.slot.credential = some c → ∃ e blob, m.revealed (some blob) = .ok (some c) ∧ Rests view s e blob

namespace Backed

variable {s s' : State m σ}

theorem new (store : σ) (nonces : Nonces) : Backed view (State.new store nonces : State m σ) := by
  refine ⟨?_, ?_, ?_⟩ <;> simp [State.new, Slot.empty]

/-- What an exchange has just saved, and what it has saved before while it stays current, is its entry. -/
theorem change_saving (g : Guarded s) (ht : Traced s) (o : Opens s) (hb : b.Lawful view)
    (hw : b.Steady view ∨ Flawless s'.history) (B : Backed view s) {move : Move} (h : State.Change b s move s') {i : Nat}
    {f : Future m} {x : Exchange} {c : Credential} {blob : String} (hf : s'.futures i = some f)
    (hp : f.phase = .answered (.saving x c blob) (Except.ok ())) (hc : s'.slot.isCurrent x.ticket = true) :
    Rests view s' (.saved m i blob) blob := by
  obtain ⟨phase, aborted⟩ := f
  have ha : Arrival b s s' i phase := h.arrival g hf
  cases ha with
  | made _ _ _ => cases hp
  | ran _ _ _ => cases hp
  | @stays f hl _ =>
    have hp : f.phase = .answered (.saving x c blob) (Except.ok ()) := hp
    have hx : s.exchange? i = some x := by
      rw [State.exchange?_of_future hl, hp]
      rfl
    have hle := g.ticket_le hx
    have hgen := h.generation_le
    have hcur : s'.slot.generation = x.ticket := beq_iff_eq.1 hc
    have heq : s'.slot.generation = s.slot.generation := by omega
    have hcur' : s.slot.isCurrent x.ticket = true := beq_iff_eq.2 (by omega)
    exact (B.saving i f x c blob hl hp hcur').change g ht hb hw (o.waiting i f x c blob hl (by rw [hp]; rfl)) h
      (hgen.2 heq) (g.idle_of_answered hl hp rfl)
  | @performed w stage aborted' hl hst =>
    injection hp with hstage hanswer
    subst hstage
    have hanswer := eq_of_heq hanswer
    subst hst
    have hview := view_answer hb w s.store (.saving x c blob) hanswer
    refine Rests.of_perform ht ?_ (Or.inl ⟨i, rfl⟩) ?_ hview
    · rw [hanswer]
      rfl
    · rintro (⟨e, he⟩ | ⟨g, a, e, he, -⟩)
      · cases he
      · cases he

/-- What a restore in time has just loaded, and what it has loaded before while it stays in time, is its entry. -/
theorem change_loading (g : Guarded s) (ht : Traced s) (t : Timely s) (hb : b.Lawful view)
    (hw : b.Steady view ∨ Flawless s'.history) (B : Backed view s) {move : Move} (h : State.Change b s move s') {j : Nat}
    {f : Future m} {blob : String} {c : Credential} (hf : s'.futures j = some f)
    (hp : f.phase = .answered (.loading s'.slot.generation) (Except.ok (some blob)))
    (hrev : m.revealed (some blob) = .ok (some c)) : Rests view s' (.loaded m j blob) blob := by
  rcases t.loaded_cases g h hf hp with ⟨hgen, hidle, f, hl, hp⟩ | ⟨w, aborted, -, rfl, hanswer⟩
  · exact (B.loading j f blob c hl hp hrev).change g ht hb hw hrev h (h.generation_le.2 hgen) (g.idle hidle)
  · have hview := view_load hb w s.store _ hanswer
    refine Rests.of_perform ht ?_ (Or.inr ⟨j, rfl⟩) ?_ hview.symm
    · rw [hanswer]
      rfl
    · rintro (⟨e, he⟩ | ⟨g', a, e, he, -, hflaw⟩)
      · cases he
      · injection he with _ ha
        rw [← ha, hanswer] at hflaw
        rcases hflaw with hflaw | ⟨entry, hentry, hr⟩
        · cases hflaw
        · obtain rfl := Except.ok.inj hentry
          cases hr.symm.trans hrev

/-- What is in the slot has an entry that was saved or loaded. -/
theorem change_slot (g : Guarded s) (ht : Traced s) (t : Timely s) (v : Vacant s) (o : Opens s)
    (hm : m.cipher.isSome = true) (hb : b.Lawful view) (hw : b.Steady view ∨ Flawless s'.history) (B : Backed view s)
    {move : Move} (h : State.Change b s move s') {c : Credential} (hc : s'.slot.credential = some c) :
    ∃ e blob, m.revealed (some blob) = .ok (some c) ∧ Rests view s' e blob := by
  obtain ⟨hclear, hold | ⟨i, f, now, x, hf, hx, hcur, hy, -⟩ | ⟨j, f, blob, hf, hp, hrev⟩⟩ := h.credential_cases g hc
  · obtain ⟨e, blob, hrev, R⟩ := B.slot c hold
    have hnone : s.slot.inFlight = none := by
      cases hi : s.slot.inFlight with
      | none => rfl
      | some u => cases hold.symm.trans (v u hi)
    exact ⟨e, blob, hrev, R.change g ht hb hw hrev h hclear (g.idle hnone)⟩
  · obtain ⟨phase, aborted⟩ := f
    cases hy with
    | saved c blob =>
      have hrev := o.waiting i _ x c blob hf rfl
      have R := B.saving i _ x c blob hf rfl hcur
      exact ⟨_, blob, hrev, R.change g ht hb hw hrev h hclear (g.idle_of_answered hf rfl rfl)⟩
    | unsaved hnone _ =>
      rw [hnone] at hm
      cases hm
  · obtain ⟨-, -, hnone⟩ := t.loading j f _ hf (by rw [hp]; rfl)
    have R := B.loading j f blob c hf hp hrev
    exact ⟨_, blob, hrev, R.change g ht hb hw hrev h hclear (g.idle (hnone rfl))⟩

/-- Every change keeps track of the entries. -/
theorem change (g : Guarded s) (ht : Traced s) (t : Timely s) (v : Vacant s) (o : Opens s)
    (hm : m.cipher.isSome = true) (hb : b.Lawful view) (hw : b.Steady view ∨ Flawless s'.history) (B : Backed view s)
    {move : Move} (h : State.Change b s move s') : Backed view s' where
  saving _ _ _ _ _ hf hp hc := B.change_saving g ht o hb hw h hf hp hc
  loading _ _ _ _ hf hp hrev := B.change_loading g ht t hb hw h hf hp hrev
  slot _ hc := B.change_slot g ht t v o hm hb hw h hc

/-- In every interleaving of a store that does not fail, or whose failing operations change nothing, the credential in
the slot has an entry that was saved or loaded, and outdated removals alone can have taken it away. -/
theorem run (hb : b.Lawful view) (hm : m.cipher.isSome = true) (store : σ) {nonces : Nonces} (hn : nonces.Sized)
    (moves : List Move)
    (hw : b.Steady view ∨ Flawless ((State.new store nonces : State m σ).run b moves).history) :
    Backed view ((State.new store nonces : State m σ).run b moves) := by
  induction moves using List.reverseRecOn with
  | nil => exact new store nonces
  | append_singleton moves move ih =>
    rw [State.run_append] at hw ⊢
    have hch := State.step_change b ((State.new store nonces : State m σ).run b moves) move
    exact (ih (hw.imp_right fun fl => fl.mono hch.history_suffix)).change (Guarded.run b store nonces moves)
      (Traced.run b store nonces moves) (Timely.run b store nonces moves) (Vacant.run b store nonces moves)
      (Opens.run b store hn moves) hm hb hw hch

end Backed

end Interleaving

end ClientAuth
