import ClientAuth.Proofs.Interleaving.Backed

/-!
# A discarded credential

An exchange gives the credential in use up when it begins, and the first call that it waits for removes the entry. Once
that removal has succeeded, no copy of an older credential is left: the slot is empty while the exchange goes on, a
restore that has loaded the old entry is no longer in time, and no other exchange is there to save one. So whatever comes
into the slot or into the store from then on was issued to that exchange or to a later one (`Heirs`), also across a fresh
manager.
-/

namespace ClientAuth

/-- A store that brings up nothing of its own: whatever comes of an operation, the entry is what it was, what was to be
saved, or gone. -/
structure Backing.Tame {σ : Type} (b : Backing σ) (view : σ → String → Option String) : Prop where
  save : ∀ s key blob, view (b.save s key blob).2 key = some blob ∨ view (b.save s key blob).2 key = none ∨
    view (b.save s key blob).2 key = view s key
  remove : ∀ s key, view (b.remove s key).2 key = none ∨ view (b.remove s key).2 key = view s key

/-- A store that behaves as a map is tame. -/
theorem Backing.IsMap.tame {σ : Type} {b : Backing σ} {view : σ → String → Option String} (h : b.IsMap view) :
    b.Tame view :=
  ⟨fun s key blob => Or.inl (h.view_save s key blob), fun s key => Or.inl (h.view_remove s key)⟩

/-- The store in memory is tame. -/
theorem Backing.memory_tame : Backing.memory.Tame Entries.get? :=
  Backing.memory_isMap.tame

/-- A tame store stays so when some of its operations are made to fail. -/
theorem Backing.Tame.failing {σ : Type} {b : Backing σ} {view : σ → String → Option String} (h : b.Tame view)
    (f : Faults) : (b.failing f).Tame view := by
  refine ⟨fun s key blob => ?_, fun s key => ?_⟩
  · rcases b.failing_save_cases f s key blob with he | ⟨e, he⟩
    · rw [he]
      exact h.save s key blob
    · rw [he]
      exact Or.inr (Or.inr rfl)
  · rcases b.failing_remove_cases f s key with he | ⟨e, he⟩
    · rw [he]
      exact h.remove s key
    · rw [he]
      exact Or.inr rfl

namespace Interleaving

variable {m : Manager} {σ : Type} {b : Backing σ} {view : σ → String → Option String}

/-- After a call, the entry of the manager is what it was, what an exchange was to save, or gone. -/
theorem view_tame (hw : b.Tame view) (w : Weather) (store : σ) (stage : Stage) :
    (∃ x c blob, stage = .saving x c blob ∧
      view ((w.world b store).answer (stage.call m)).2 m.config.storageKey = some blob) ∨
    view ((w.world b store).answer (stage.call m)).2 m.config.storageKey = none ∨
    view ((w.world b store).answer (stage.call m)).2 m.config.storageKey = view store m.config.storageKey := by
  have hremove := (hw.failing w.faults).remove store m.config.storageKey
  cases stage with
  | saving x c blob =>
    exact ((hw.failing w.faults).save store m.config.storageKey blob).imp_left fun h => ⟨x, c, blob, rfl, h⟩
  | removingOld x => exact Or.inr hremove
  | cleaningUp x e => exact Or.inr hremove
  | removing => exact Or.inr hremove
  | discarding e => exact Or.inr hremove
  | fetchingNonce x => exact Or.inr (Or.inr rfl)
  | enrolling x request => exact Or.inr (Or.inr rfl)
  | loading g => exact Or.inr (Or.inr rfl)

/-- A removal is a call to remove the entry that has succeeded. -/
theorem removed_of_eq {i j : Nat} {c : Call} {a : c.Answer} (h : Event.performed i c a = .removed m j) :
    i = j ∧ c = .remove m.config.storageKey ∧ c.Succeeds a := by
  cases h
  exact ⟨rfl, rfl, rfl⟩

/-! ## What a future resolves with -/

/-- A future that has just resolved with a header has left the credential of that header in the slot. -/
def Told (s : State m σ) : Prop :=
  ∀ k hd h, s.history = .resolved k (.ok (some hd)) :: h → ∃ c, s.slot.credential = some c ∧ c.headerValue = hd

theorem Told.change {s s' : State m σ} (g : Guarded s) (ht : Told s) {move : Move} (h : State.Change b s move s') :
    Told s' := by
  intro k hd past hh
  rcases h.resolved_cases hh with ⟨hold, hslot⟩ | ⟨-, ho⟩ | ⟨f, now, s₁, hf, hr, -, hslot⟩
  · rw [hslot]
    exact ht k hd past hold
  · cases ho
  · rw [hslot]
    cases hx : f.phase.task.exchange? with
    | some x =>
      rcases (run?_turn hx hr).finished (fun stage => g.honest k f stage hf) with ⟨e, ho, -⟩ | ⟨c, ho, -, -, hs⟩
      · cases ho
      · cases ho
        refine ⟨c, ?_, rfl⟩
        rw [hs, release_credential]
        rfl
    | none =>
      obtain ⟨phase, aborted⟩ := f
      cases run?_sideTurn hx hr with
      | @restores blob c _ hrev _ hfill =>
        refine ⟨c, ?_, rfl⟩
        rw [hfill]
        rfl
      | misses g a hn => exact absurd rfl (hn hd)
      | declines hn => rcases hn with h | h <;> cases h

theorem Told.run (b : Backing σ) (store : σ) (nonces : Nonces) (moves : List Move) :
    Told ((State.new store nonces : State m σ).run b moves) :=
  State.new_run_induction (by simp [Told, State.new])
    (fun moves _ ht => ht.change (Guarded.run b store nonces moves) (State.step_change b _ _)) moves

/-! ## Heirs -/

/-- A credential was issued to an exchange that was called no earlier than a future. -/
def IssuedSince (m : Manager) (h : List Event) (i : Nat) (c : Credential) : Prop := ∃ j, i ≤ j ∧ Issued m h j c

theorem IssuedSince.mono {h h' : List Event} {i : Nat} {c : Credential} (hi : IssuedSince m h i c) (hs : h <:+ h') :
    IssuedSince m h' i c := by
  obtain ⟨j, hj, hissued⟩ := hi
  exact ⟨j, hj, hissued.mono hs⟩

/-- Every credential in the slot, on its way into it, or in the store is a legacy, or was issued to an exchange that was
called no earlier than a future; and no exchange from before is live. -/
structure Heirs (view : σ → String → Option String) (legacy : Credential → Prop) (i : Nat) (s : State m σ) : Prop where
  made : i ≤ s.made
  live : ∀ j x, s.exchange? j = some x → i ≤ j
  slot : ∀ c, s.slot.credential = some c → legacy c ∨ IssuedSince m s.history i c
  loaded : ∀ j f blob c, s.futures j = some f →
    f.phase = .answered (.loading s.slot.generation) (Except.ok (some blob)) → m.revealed (some blob) = .ok (some c) →
    legacy c ∨ IssuedSince m s.history i c
  entry : ∀ blob c, view s.store m.config.storageKey = some blob → m.revealed (some blob) = .ok (some c) →
    legacy c ∨ IssuedSince m s.history i c

namespace Heirs

variable {s s' : State m σ} {legacy : Credential → Prop} {i : Nat}

/-- What a fresh manager finds in the store is a legacy. -/
theorem new (store : σ) (nonces : Nonces)
    (hl : ∀ blob c, view store m.config.storageKey = some blob → m.revealed (some blob) = .ok (some c) → legacy c) :
    Heirs view legacy 0 (State.new store nonces : State m σ) where
  made := Nat.le_refl 0
  live _ _ _ := Nat.zero_le _
  slot c hc := by cases hc
  loaded j f blob c hf := by cases hf
  entry blob c hv hrev := Or.inl (hl blob c hv hrev)

theorem mono (hs : s.history <:+ s'.history) {c : Credential} (h : legacy c ∨ IssuedSince m s.history i c) :
    legacy c ∨ IssuedSince m s'.history i c := h.imp_right fun h => h.mono hs

/-- An exchange that a change makes is later than those before. -/
theorem change_live (g : Guarded s) (H : Heirs view legacy i s) {move : Move} (h : State.Change b s move s') {j : Nat}
    {x : Exchange} (hx : s'.exchange? j = some x) : i ≤ j := by
  obtain ⟨hc, hn⟩ := ((g.change h).exchange_iff j x).1 hx
  have hs := h.history_suffix
  obtain ⟨es, hh, hes⟩ := h.events
  rw [hh, List.mem_append] at hc
  rcases hc with hnew | hold
  · rcases hes with ⟨-, t, rfl⟩ | ⟨-, hes⟩
    · cases List.mem_singleton.1 hnew
      exact H.made
    · exact absurd rfl ((hes _ hnew).1 j _)
  · exact H.live j x ((g.exchange_iff j x).2 ⟨hold, fun he => hn (he.mono hs)⟩)

/-- What a change brings into the slot is an heir. -/
theorem change_slot (g : Guarded s) (ht : Traced s) (H : Heirs view legacy i s) {move : Move}
    (h : State.Change b s move s') {c : Credential} (hc : s'.slot.credential = some c) :
    legacy c ∨ IssuedSince m s'.history i c := by
  obtain ⟨-, hold | ⟨j, f, now, x, hf, hx, -, hy, hran⟩ | ⟨j, f, blob, hf, hp, hrev⟩⟩ := h.credential_cases g hc
  · exact mono h.history_suffix (H.slot c hold)
  · exact Or.inr ⟨j, H.live j x ((State.exchange?_of_future hf).trans hx), ht.issued_of_yield hf hy hran⟩
  · exact mono h.history_suffix (H.loaded j f blob c hf hp hrev)

/-- What a change loads in time is an heir. -/
theorem change_loaded (g : Guarded s) (t : Timely s) (hb : b.Lawful view) (H : Heirs view legacy i s) {move : Move}
    (h : State.Change b s move s') {j : Nat} {f : Future m} {blob : String} {c : Credential}
    (hf : s'.futures j = some f)
    (hp : f.phase = .answered (.loading s'.slot.generation) (Except.ok (some blob)))
    (hrev : m.revealed (some blob) = .ok (some c)) : legacy c ∨ IssuedSince m s'.history i c := by
  rcases t.loaded_cases g h hf hp with ⟨-, -, f, hl, hp⟩ | ⟨w, aborted, -, -, hanswer⟩
  · exact mono h.history_suffix (H.loaded j f blob c hl hp hrev)
  · have hview := view_load hb w s.store _ hanswer
    exact mono h.history_suffix (H.entry blob c hview.symm hrev)

/-- What a change leaves in the store is an heir. -/
theorem change_entry (ht : Traced s) (o : Opens s) (hw : b.Tame view) (H : Heirs view legacy i s) {move : Move}
    (h : State.Change b s move s') {blob : String} {c : Credential}
    (hv : view s'.store m.config.storageKey = some blob) (hrev : m.revealed (some blob) = .ok (some c)) :
    legacy c ∨ IssuedSince m s'.history i c := by
  rcases h.store_cases with ⟨hst, -⟩ | ⟨j, w, stage, aborted, hf, rfl⟩
  · exact mono h.history_suffix (H.entry blob c (hst ▸ hv) hrev)
  · rcases view_tame hw w s.store stage with ⟨x, c', blob', rfl, hsaved⟩ | hgone | hstill
    · obtain rfl : blob = blob' := Option.some.inj (hv.symm.trans hsaved)
      obtain rfl : c = c' := by
        have hopens := o.waiting j _ x c' blob hf rfl
        exact Option.some.inj (Except.ok.inj (hrev.symm.trans hopens))
      have hissued := ((ht.live j _ hf).issued_of_saving rfl).1
      exact Or.inr ⟨j, H.live j x (State.exchange?_of_future hf), hissued.of_own.mono h.history_suffix⟩
    · cases hv.symm.trans hgone
    · exact mono h.history_suffix (H.entry blob c (hstill.symm.trans hv) hrev)

/-- Every change leaves heirs only. -/
theorem change (g : Guarded s) (ht : Traced s) (t : Timely s) (o : Opens s) (hb : b.Lawful view) (hw : b.Tame view)
    (H : Heirs view legacy i s) {move : Move} (h : State.Change b s move s') : Heirs view legacy i s' where
  made := by
    rcases h.made_cases with hm | ⟨-, t, slot, -, rfl⟩
    · exact hm ▸ H.made
    · exact Nat.le_succ_of_le H.made
  live _ _ hx := H.change_live g h hx
  slot _ hc := H.change_slot g ht h hc
  loaded _ _ _ _ hf hp hrev := H.change_loaded g t hb h hf hp hrev
  entry _ _ hv hrev := H.change_entry ht o hw h hv hrev

/-- The removal of an exchange leaves none but its heirs. -/
theorem of_removed (g : Guarded s) (t : Timely s) (v : Vacant s) (hb : b.Lawful view) {w : Weather} {stage : Stage}
    {aborted : Bool} {x : Exchange} (hf : s.futures i = some ⟨.unanswered (.waiting stage), aborted⟩)
    (hx : stage.exchange? = some x) (hcall : stage.call m = .remove m.config.storageKey)
    (ha : (stage.call m).Succeeds ((w.world b s.store).answer (stage.call m)).1) :
    Heirs view (fun _ => False) i (s.perform b i w stage aborted) := by
  have hlive : s.exchange? i = some x := by
    rw [State.exchange?_of_future hf]
    exact hx
  have hheld : s.slot.inFlight = some x.ticket := g.held i x hlive
  have hgone : view (s.perform b i w stage aborted).store m.config.storageKey = none := by
    refine (view_answer hb w s.store stage ha).trans ?_
    rw [hcall]
    rfl
  refine ⟨Nat.le_of_lt (g.live_lt i _ hf), ?_, ?_, ?_, ?_⟩
  · intro j y hy
    have hy' : s.exchange? j = some y := by
      have hfutures : (s.perform b i w stage aborted).futures = Function.update s.futures i
          (some ⟨.answered stage ((w.world b s.store).answer (stage.call m)).1, aborted⟩) := rfl
      rwa [State.exchange?_replace hf hfutures rfl j] at hy
    exact Nat.le_of_eq (g.unique hlive hy')
  · intro c hc
    cases hc.symm.trans (v x.ticket hheld)
  -- a load in time would have been asked for while no guard was held
  · intro j f blob c hj hp
    by_cases hji : j = i
    · subst hji
      simp only [State.perform, Function.update_self, Option.some.injEq] at hj
      subst hj
      injection hp with hstage
      cases (congrArg Stage.exchange? hstage).symm.trans hx
    · simp only [State.perform, Function.update_of_ne hji] at hj
      obtain ⟨-, -, hnone⟩ := t.loading j f _ hj (by rw [hp]; rfl)
      cases hheld.symm.trans (hnone rfl)
  · intro blob c hv
    cases hv.symm.trans hgone

/-- Once an exchange has removed the entry, every change leaves its heirs only. -/
theorem change_removed (g : Guarded s) (ht : Traced s) (t : Timely s) (v : Vacant s) (o : Opens s)
    (hb : b.Lawful view) (hw : b.Tame view) {x : Exchange}
    (H : .called i (.exchange x) ∈ s.history → .removed m i ∈ s.history → Heirs view (fun _ => False) i s)
    {move : Move} (h : State.Change b s move s') (hcalled : .called i (.exchange x) ∈ s'.history)
    (hremoved : .removed m i ∈ s'.history) : Heirs view (fun _ => False) i s' := by
  by_cases hold : .removed m i ∈ s.history
  · have hcalled' : .called i (.exchange x) ∈ s.history := h.called_of_known ht hold hcalled
    exact (H hcalled' hold).change g ht t o hb hw h
  · rcases h.store_cases with ⟨-, es, hh, hes⟩ | ⟨j, w, stage, aborted, hf, rfl⟩
    · rw [hh, List.mem_append] at hremoved
      exact absurd (hremoved.resolve_left (hes _ _ _)) hold
    · rw [State.perform_history, List.mem_cons] at hremoved hcalled
      obtain ⟨rfl, hcall, ha⟩ := removed_of_eq (hremoved.resolve_right hold).symm
      have hcalled' := hcalled.resolve_left fun h => by cases h
      have hx : stage.exchange? = some x := ((ht.live j _ hf).exchange?_iff x).2 ((mem_own rfl).2 hcalled')
      exact of_removed g t v hb hf hx hcall ha

/-- In every interleaving a removal by an exchange leaves none but its heirs from then on. -/
theorem run (hb : b.Lawful view) (hw : b.Tame view) (store : σ) {nonces : Nonces} (hn : nonces.Sized)
    (moves : List Move) {x : Exchange}
    (hcalled : .called i (.exchange x) ∈ ((State.new store nonces : State m σ).run b moves).history)
    (hremoved : .removed m i ∈ ((State.new store nonces : State m σ).run b moves).history) :
    Heirs view (fun _ => False) i ((State.new store nonces : State m σ).run b moves) := by
  have h : ∀ moves, .called i (.exchange x) ∈ ((State.new store nonces : State m σ).run b moves).history →
      .removed m i ∈ ((State.new store nonces : State m σ).run b moves).history →
      Heirs view (fun _ => False) i ((State.new store nonces : State m σ).run b moves) := by
    refine State.new_run_induction (P := fun s => .called i (.exchange x) ∈ s.history → .removed m i ∈ s.history →
      Heirs view (fun _ => False) i s) (fun h => by cases h) fun moves move H => ?_
    exact change_removed (Guarded.run b store nonces moves) (Traced.run b store nonces moves)
      (Timely.run b store nonces moves) (Vacant.run b store nonces moves) (Opens.run b store hn moves) hb hw H
      (State.step_change b _ move)
  exact h moves hcalled hremoved

/-- In every interleaving a fresh manager has in use what it finds in the store at first, or what was issued to one of
its own exchanges. -/
theorem run_new (hb : b.Lawful view) (hw : b.Tame view) (store : σ) {nonces : Nonces} (hn : nonces.Sized)
    (hl : ∀ blob c, view store m.config.storageKey = some blob → m.revealed (some blob) = .ok (some c) → legacy c)
    (moves : List Move) : Heirs view legacy 0 ((State.new store nonces : State m σ).run b moves) :=
  State.new_run_induction (new store nonces hl)
    (fun moves _ H => H.change (Guarded.run b store nonces moves) (Traced.run b store nonces moves)
      (Timely.run b store nonces moves) (Opens.run b store hn moves) hb hw (State.step_change b _ _)) moves

end Heirs

/-- What becomes of a credential that an exchange has replaced, in any interleaving with failures of the store, which is
tame. Once a removal by the exchange has succeeded, what is in the slot, and what a future resolves with, was issued to
that exchange or to a later one. Of a fresh manager over the store it was so too, or was issued to one of its own
exchanges. -/
theorem discarded_never_returns (hb : b.Lawful view) (hw : b.Tame view) (store : σ) {nonces : Nonces}
    (hn : nonces.Sized) (moves : List Move) :
    let s : State m σ := (State.new store nonces).run b moves
    ∀ i x, .called i (.exchange x) ∈ s.history → .removed m i ∈ s.history →
      (∀ c, s.slot.credential = some c → IssuedSince m s.history i c) ∧
      (∀ k hd h, s.history = .resolved k (.ok (some hd)) :: h →
        ∃ c, IssuedSince m s.history i c ∧ c.headerValue = hd) ∧
      ∀ nonces', nonces'.Sized → ∀ moves',
        let s' : State m σ := (State.new s.store nonces').run b moves'
        (∀ c, s'.slot.credential = some c → IssuedSince m s.history i c ∨ IssuedSince m s'.history 0 c) ∧
        ∀ k hd h, s'.history = .resolved k (.ok (some hd)) :: h →
          ∃ c, (IssuedSince m s.history i c ∨ IssuedSince m s'.history 0 c) ∧ c.headerValue = hd := by
  intro s i x hcalled hremoved
  have H : Heirs view (fun _ => False) i s := Heirs.run hb hw store hn moves hcalled hremoved
  have hslot : ∀ c, s.slot.credential = some c → IssuedSince m s.history i c :=
    fun c hc => (H.slot c hc).resolve_left id
  refine ⟨hslot, fun k hd h hh => ?_, fun nonces' hn' moves' => ?_⟩
  · obtain ⟨c, hc, hheader⟩ := Told.run b store nonces moves k hd h hh
    exact ⟨c, hslot c hc, hheader⟩
  · intro s'
    have H' : Heirs view (IssuedSince m s.history i) 0 s' :=
      Heirs.run_new hb hw s.store hn' (fun blob c hv hrev => (H.entry blob c hv hrev).resolve_left id) moves'
    refine ⟨H'.slot, fun k hd h hh => ?_⟩
    obtain ⟨c, hc, hheader⟩ := Told.run b s.store nonces' moves' k hd h hh
    exact ⟨c, H'.slot c hc, hheader⟩

/-- A restore has loaded the entry of a former manager, and then an exchange begins and removes it. -/
theorem discarded_never_returns_replaced :
    let cipher : Cipher := .ofPassword .aes256Gcm "password"
    let m : Manager := ⟨{}, .never, some cipher⟩
    let entry : String := (cipher.encloseValue Credential.codec (.ofList []) ⟨"Bearer t", 0, ⟨"a", "", ""⟩⟩).1
    let p : Enrollment.Params := { publicKey := [4] }
    let w : Weather := ⟨.ok "nonce", .error .cancelled, {}⟩
    let s : State m Entries := (State.new (Entries.empty.insert m.config.storageKey entry) (.ofList [])).run .memory
      [.restore, .poll 0 ⟨0, 0⟩, .perform 0 w, .obtain p, .poll 1 ⟨0, 0⟩, .perform 1 w]
    .called 1 (.exchange ⟨1, p⟩) ∈ s.history ∧ .removed m 1 ∈ s.history ∧
      (∀ c, s.slot.credential = some c → IssuedSince m s.history 1 c) ∧
      ∀ nonces', nonces'.Sized → ∀ moves',
        let s' : State m Entries := (State.new s.store nonces').run .memory moves'
        ∀ c, s'.slot.credential = some c → IssuedSince m s.history 1 c ∨ IssuedSince m s'.history 0 c := by
  intro cipher m entry p w s
  clear_value cipher entry
  have hh : ∃ a, s.history = [.removed m 1, .ran 1 (.exchange ⟨1, p⟩) ⟨0, 0⟩, .called 1 (.exchange ⟨1, p⟩),
      .performed 0 (.load m.config.storageKey) a, .ran 0 .restore ⟨0, 0⟩, .called 0 .restore] := ⟨_, rfl⟩
  obtain ⟨a, hh⟩ := hh
  have hcalled : .called 1 (.exchange ⟨1, p⟩) ∈ s.history := by simp [hh]
  have hremoved : .removed m 1 ∈ s.history := by simp [hh]
  have h := discarded_never_returns Backing.memory_lawful Backing.memory_tame
    (Entries.empty.insert m.config.storageKey entry) Nonces.sized_ofList_nil
    [.restore, .poll 0 ⟨0, 0⟩, .perform 0 w, .obtain p, .poll 1 ⟨0, 0⟩, .perform 1 w] 1 ⟨1, p⟩ hcalled hremoved
  exact ⟨hcalled, hremoved, h.1, fun nonces' hn' moves' => (h.2.2 nonces' hn' moves').1⟩

end Interleaving

end ClientAuth
