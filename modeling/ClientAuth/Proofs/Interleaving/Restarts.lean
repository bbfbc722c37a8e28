import ClientAuth.Proofs.Interleaving.Agreement

/-!
# One call after another

A manager that runs every call to its end before the next one, and that a fresh manager over the same store takes the
place of now and then, in any weather. The events of such a manager come in the order of its futures (`Orderly`), so that
no removal is on its way while an entry is written. What is left is a restore whose load fails as if the entry could not
be used: it removes the entry and leaves the slot as it is.
-/

namespace ClientAuth.Interleaving

open Enrollment (Params)

variable {m : Manager} {σ : Type} {b : Backing σ} {view : σ → String → Option String}

/-- A call that is made of a manager. -/
inductive Errand where
  | obtain (p : Params)
  | clear
  | restore

/-- The move that makes the call. -/
def Errand.move : Errand → Move
  | obtain p => .obtain p
  | clear => .clear
  | restore => .restore

/-- What is done with a manager before anything else is done. -/
inductive Deed where
  /-- A call is made and run to its end; six rounds are enough for any. -/
  | runs (e : Errand) (rounds : Fin 6 → Weather × Instant)
  /-- A fresh manager takes the place of the old one, with nonces of its own. -/
  | restarts (nonces : Nonces) (sized : nonces.Sized)

/-- The state after a deed. -/
def State.deed (b : Backing σ) (s : State m σ) : Deed → State m σ
  | .runs e rounds => (s.step b e.move).run b (drive s.made (List.ofFn rounds))
  | .restarts nonces _ => .new s.store nonces

/-- The state after any number of deeds. -/
def State.deeds (b : Backing σ) (s : State m σ) (ds : List Deed) : State m σ := ds.foldl (State.deed b) s

@[simp] theorem State.deeds_nil (s : State m σ) : s.deeds b [] = s := rfl

@[simp] theorem State.deeds_cons (s : State m σ) (d : Deed) (ds : List Deed) :
    s.deeds b (d :: ds) = (s.deed b d).deeds b ds := rfl

theorem State.deeds_append (s : State m σ) (ds ds' : List Deed) :
    s.deeds b (ds ++ ds') = (s.deeds b ds).deeds b ds' := List.foldl_append

/-! ## Moves about one future -/

theorem future?_of_mem_drive {i : Nat} {rounds : List (Weather × Instant)} {move : Move} (h : move ∈ drive i rounds) :
    move.future? = some i := by
  obtain ⟨r, -, hr⟩ := List.mem_flatMap.1 h
  simp only [List.mem_cons, List.not_mem_nil, or_false] at hr
  rcases hr with rfl | rfl <;> rfl

/-- A move about a future makes none, and adds events about this future only. -/
theorem State.Change.events_about {s s' : State m σ} (g : Guarded s) {move : Move} (h : State.Change b s move s')
    {i : Nat} (hi : move.future? = some i) :
    s'.made = s.made ∧ ∃ es, s'.history = es ++ s.history ∧ ∀ e ∈ es, e.future = i := by
  have hmade : s'.made = s.made := by
    rcases h.made_cases with hm | ⟨hn, -⟩
    · exact hm
    · cases hi.symm.trans hn
  obtain ⟨es, hh, ⟨hm, -⟩ | ⟨-, hes⟩⟩ := h.events
  · omega
  · refine ⟨hmade, es, hh, fun e he => ?_⟩
    by_contra hne
    obtain ⟨-, f, hf⟩ := hes e he
    have hmove : move.future? ≠ some e.future := by
      rw [hi]
      exact fun h => hne (Option.some.inj h).symm
    have hown := (h.frame (g.live_lt _ f hf) hmove).2
    rw [hh, own, List.filter_append] at hown
    have hnil : es.filter (·.future = e.future) = [] := List.append_left_eq_self.1 hown
    simpa using List.filter_eq_nil_iff.1 hnil e he

/-- Moves about a future make none, and add events about this future only. -/
theorem State.run_events_about {s : State m σ} (g : Guarded s) {i : Nat} {moves : List Move}
    (hm : ∀ move ∈ moves, move.future? = some i) :
    (s.run b moves).made = s.made ∧ ∃ es, (s.run b moves).history = es ++ s.history ∧ ∀ e ∈ es, e.future = i := by
  induction moves generalizing s with
  | nil => exact ⟨rfl, [], rfl, by simp⟩
  | cons move moves ih =>
    have hch := State.step_change b s move
    obtain ⟨hmade, es, hh, hes⟩ := hch.events_about g (hm move List.mem_cons_self)
    obtain ⟨hmade', es', hh', hes'⟩ := ih (g.change hch) fun move' h => hm move' (List.mem_cons_of_mem _ h)
    refine ⟨hmade'.trans hmade, es' ++ es, ?_, fun e he => ?_⟩
    · rw [State.run_cons, hh', hh, List.append_assoc]
    · exact (List.mem_append.1 he).elim (hes' e) (hes e)

/-- A call makes the next future. -/
theorem Errand.step_move (s : State m σ) (e : Errand) : ∃ t, (s.step b e.move).made = s.made + 1 ∧
    (s.step b e.move).history = .called s.made t :: s.history ∧
    (s.step b e.move).futures s.made = some ⟨.unanswered t, false⟩ := by
  cases e with
  | obtain p => exact ⟨.ofBegun (Exchange.begin p s.slot).1, rfl, rfl, Function.update_self _ _ _⟩
  | clear => exact ⟨.clear, rfl, rfl, Function.update_self _ _ _⟩
  | restore => exact ⟨.restore, rfl, rfl, Function.update_self _ _ _⟩

/-! ## Restores -/

/-- A restore that can read the store brings back what it finds there, and leaves the store as it is. -/
theorem State.deed_restore {s : State m σ} (hm : m.cipher.isSome = true) (hf : s.slot.inFlight = none)
    (rounds : Fin 6 → Weather × Instant) {entry : Option String} {c : Credential}
    (hl : (((rounds 1).1.world b s.store).answer (.load m.config.storageKey)).1 = .ok entry)
    (hrev : m.revealed entry = .ok (some c)) :
    (s.deed b (.runs .restore rounds)).slot = s.slot.fill c ∧ (s.deed b (.runs .restore rounds)).store = s.store := by
  obtain ⟨cipher, hc⟩ := Option.isSome_iff_exists.1 hm
  have hload : (((rounds 1).1.world b s.store).answer (.load m.config.storageKey)).2 = s.store := rfl
  simp [State.deed, Errand.move, drive, List.ofFn_succ, State.step, State.add, State.perform, State.poll, State.scene,
    Phase.run?, Phase.task, Task.start, Manager.startRestore, hc, hf, Stage.call, State.settle, hload, hl, Stage.resume,
    hrev, Restoration.finish, Scene.record]

/-- A restore whose load fails as if the entry could not be used removes the entry, and leaves the slot as it is. -/
theorem State.deed_restore_of_failed {s : State m σ} (hm : m.cipher.isSome = true) (hf : s.slot.inFlight = none)
    (rounds : Fin 6 → Weather × Instant) {e : VaultError}
    (hl : (((rounds 1).1.world b s.store).answer (.load m.config.storageKey)).1 = .error e)
    (hu : e.isEntryUnusable = true) :
    (s.deed b (.runs .restore rounds)).slot = s.slot ∧ (s.deed b (.runs .restore rounds)).store =
      (((rounds 2).1.world b s.store).answer (.remove m.config.storageKey)).2 := by
  obtain ⟨cipher, hc⟩ := Option.isSome_iff_exists.1 hm
  have hload : (((rounds 1).1.world b s.store).answer (.load m.config.storageKey)).2 = s.store := rfl
  simp [State.deed, Errand.move, drive, List.ofFn_succ, State.step, State.add, State.perform, State.poll, State.scene,
    Phase.run?, Phase.task, Task.start, Manager.startRestore, hc, hf, Stage.call, State.settle, hload, hl, hu,
    Stage.resume, Restoration.fail]
  exact recordRemoval_slot _ _

/-! ## The order of the events -/

/-- A manager that has run every call to its end before the next one. -/
structure Orderly (b : Backing σ) (s : State m σ) : Prop where
  reached : ∃ store nonces moves, nonces.Sized ∧ s = (State.new store nonces).run b moves
  sorted : s.history.Pairwise fun later earlier => earlier.future ≤ later.future
  ended : ∀ i < s.made, ∃ o, .resolved i o ∈ s.history

namespace Orderly

variable {s : State m σ}

theorem new (b : Backing σ) (store : σ) {nonces : Nonces} (hn : nonces.Sized) :
    Orderly b (State.new store nonces : State m σ) := by
  refine ⟨⟨store, nonces, [], hn, rfl⟩, ?_, ?_⟩ <;> simp [State.new]

theorem future_le (o : Orderly b s) {e e' : Event} (hb : Before s.history e e') : e.future ≤ e'.future :=
  List.rel_of_pairwise_cons (o.sorted.sublist hb) (List.mem_singleton_self e)

/-- Running a call to its end keeps the order. -/
theorem runs (o : Orderly b s) (e : Errand) (rounds : Fin 6 → Weather × Instant) :
    Orderly b (s.deed b (.runs e rounds)) := by
  obtain ⟨store, nonces, moves, hn, hs⟩ := o.reached
  have g : Guarded s := hs ▸ Guarded.run b store nonces moves
  have ht : Traced s := hs ▸ Traced.run b store nonces moves
  obtain ⟨t, hmade, hcalled, hfuture⟩ := e.step_move (b := b) s
  have g₁ := g.change (State.step_change b s e.move)
  have hdrive : ∀ move ∈ drive s.made (List.ofFn rounds), move.future? = some s.made :=
    fun move h => future?_of_mem_drive h
  obtain ⟨hmade', es, hh, hes⟩ := State.run_events_about (b := b) g₁ hdrive
  have hlast : ∀ e' ∈ es ++ [.called s.made t], e'.future = s.made := by
    intro e' he'
    rcases List.mem_append.1 he' with he' | he'
    · exact hes e' he'
    · rw [List.mem_singleton.1 he']
      rfl
  have hhistory : (s.deed b (.runs e rounds)).history = (es ++ [.called s.made t]) ++ s.history := by
    rw [State.deed, hh, hcalled, List.append_assoc]
    rfl
  refine ⟨⟨store, nonces, moves ++ e.move :: drive s.made (List.ofFn rounds), hn, ?_⟩, ?_, ?_⟩
  · rw [State.run_append, ← hs]
    rfl
  · rw [hhistory, List.pairwise_append]
    refine ⟨List.pairwise_of_forall_mem_list fun later hl earlier he => ?_, o.sorted, fun later hl earlier he => ?_⟩
    · exact Nat.le_of_eq ((hlast earlier he).trans (hlast later hl).symm)
    · rw [hlast later hl]
      exact Nat.le_of_lt (ht.known earlier he)
  · intro i hi
    have hi' : i < s.made + 1 := by
      rw [← hmade, ← hmade']
      exact hi
    rcases Nat.lt_succ_iff_lt_or_eq.1 hi' with hold | rfl
    · obtain ⟨out, hout⟩ := o.ended i hold
      refine ⟨out, ?_⟩
      rw [hhistory]
      exact List.mem_append_right _ hout
    · refine resolved_of_driven hfuture ?_
      rw [List.length_ofFn]
      exact Task.pollsLeft_le _

/-- Whatever is done, the manager at hand has run every call to its end before the next one. -/
theorem deeds (b : Backing σ) (store : σ) {nonces : Nonces} (hn : nonces.Sized) (ds : List Deed) :
    Orderly b ((State.new store nonces : State m σ).deeds b ds) := by
  induction ds using List.reverseRecOn with
  | nil => exact new b store hn
  | append_singleton ds d ih =>
    rw [State.deeds_append]
    cases d with
    | runs e rounds => exact ih.runs e rounds
    | restarts nonces sized => exact new b _ sized

/-- With every call run to its end before the next one, a removal that does not concern an entry comes from a load that
has failed since as if the entry could not be used. -/
theorem failed_of_outdated (o : Orderly b s) {e : Event} {k : Nat} (ho : Outdated m s.history e k)
    (hb : Before s.history e (.removed m k)) :
    ∃ err : VaultError, err.isEntryUnusable = true ∧
      Before s.history e (.performed k (.load m.config.storageKey) (Except.error err)) := by
  have hle : e.future ≤ k := o.future_le hb
  rcases ho with ⟨hk, ⟨now, hc⟩ | ⟨a, err, -, hl⟩⟩ | hfail
  · exact absurd (Nat.le_antisymm (o.future_le hc) hle) hk
  · exact absurd (Nat.le_antisymm (o.future_le hl) hle) hk
  · exact hfail

end Orderly

/-- How memory and store agree across restarts and failures, with every call run to its end before the next one, over a
store whose failing operations leave the entry as it was. A credential in the slot stems from an entry that was saved or
loaded and that opens to exactly this credential. Either the entry is there, and a fresh manager that can read the store
brings exactly this credential back; or since then the load of a restore has failed as if the entry could not be used,
and the restore has removed it. -/
theorem agrees_across_restarts (hb : b.Lawful view) (hw : b.Steady view) (hm : m.cipher.isSome = true) (store : σ)
    {nonces : Nonces} (hn : nonces.Sized) (ds : List Deed) :
    let s : State m σ := (State.new store nonces).deeds b ds
    (∀ i < s.made, ∃ o, .resolved i o ∈ s.history) ∧
      ∀ c, s.slot.credential = some c →
        ∃ e blob, Stems m s.history c e blob ∧
          ((view s.store m.config.storageKey = some blob ∧ RestoresTo m b s.store (some c)) ∨
            (view s.store m.config.storageKey = none ∧ ∃ (k : Nat) (err : VaultError), err.isEntryUnusable = true ∧
              Before s.history e (.performed k (.load m.config.storageKey) (Except.error err)) ∧
              Before s.history e (.removed m k))) := by
  intro s
  have o : Orderly b s := Orderly.deeds b store hn ds
  refine ⟨o.ended, fun c hc => ?_⟩
  obtain ⟨store', nonces', moves, hn', hs⟩ := o.reached
  have B : Backed view s := hs ▸ Backed.run hb hm store' hn' moves (Or.inl hw)
  obtain ⟨e, blob, hrev, R⟩ := B.slot c hc
  refine ⟨e, blob, ⟨R.source, R.mem, hrev⟩, ?_⟩
  rcases R.entry with hv | ⟨hv, k, ho, hbefore⟩
  · exact Or.inl ⟨hv, restoresTo_of_view hb hm (by rw [hv, hrev])⟩
  · obtain ⟨err, hu, hl⟩ := o.failed_of_outdated ho hbefore
    exact Or.inr ⟨hv, k, err, hu, hl, hbefore⟩

/-- A manager that has brought back the entry which a former one left. -/
theorem agrees_across_restarts_restored :
    let cipher : Cipher := .ofPassword .aes256Gcm "password"
    let m : Manager := ⟨{}, .never, some cipher⟩
    let c : Credential := ⟨"Bearer t", 0, ⟨"a", "", ""⟩⟩
    let entry : String := (cipher.encloseValue Credential.codec (.ofList []) c).1
    let w : Weather := ⟨.ok "nonce", .error .cancelled, {}⟩
    let s : State m Entries := (State.new (Entries.empty.insert m.config.storageKey entry) (.ofList [])).deeds .memory
      [.runs .restore fun _ => (w, ⟨0, 0⟩)]
    s.slot.credential = some c ∧
      ∃ e blob, Stems m s.history c e blob ∧
        ((s.store.get? m.config.storageKey = some blob ∧ RestoresTo m .memory s.store (some c)) ∨
          (s.store.get? m.config.storageKey = none ∧ ∃ (k : Nat) (err : VaultError), err.isEntryUnusable = true ∧
            Before s.history e (.performed k (.load m.config.storageKey) (Except.error err)) ∧
            Before s.history e (.removed m k))) := by
  intro cipher m c entry w s
  clear_value cipher
  have hm : m.cipher.isSome = true := rfl
  have hrev : m.revealed ((Entries.empty.insert m.config.storageKey entry).get? m.config.storageKey) = .ok (some c) :=
    revealed_get?_insert rfl c
  have hs : s = (State.new (Entries.empty.insert m.config.storageKey entry) (.ofList [])).deeds .memory
      [.runs .restore fun _ => (w, ⟨0, 0⟩)] := rfl
  have h := (agrees_across_restarts Backing.memory_lawful Backing.memory_steady hm
    (Entries.empty.insert m.config.storageKey entry) Nonces.sized_ofList_nil [.runs .restore fun _ => (w, ⟨0, 0⟩)]).2 c
  have hslot := (State.deed_restore (b := .memory)
    (s := State.new (Entries.empty.insert m.config.storageKey entry) (.ofList [])) hm rfl (fun _ => (w, ⟨0, 0⟩))
    rfl hrev).1
  have hcredential : s.slot.credential = some c := by
    rw [hs, State.deeds_cons, State.deeds_nil, hslot]
    rfl
  rw [← hs] at h
  exact ⟨hcredential, h hcredential⟩

/-- A restore that can read the store, and one whose load then fails as if the entry could not be used: the credential is
in use, and the entry is gone. -/
theorem disagrees_after_failed_load :
    let cipher : Cipher := .ofPassword .aes256Gcm "password"
    let m : Manager := ⟨{}, .never, some cipher⟩
    let c : Credential := ⟨"Bearer t", 0, ⟨"a", "", ""⟩⟩
    let entry : String := (cipher.encloseValue Credential.codec (.ofList []) c).1
    let w : Weather := ⟨.ok "nonce", .error .cancelled, {}⟩
    let s : State m Entries := (State.new (Entries.empty.insert m.config.storageKey entry) (.ofList [])).deeds .memory
      [.runs .restore fun _ => (w, ⟨0, 0⟩),
        .runs .restore fun _ => ({ w with faults := { load := some .notAuthentic } }, ⟨0, 0⟩)]
    s.slot.state = .cached ∧ s.slot.credential = some c ∧ s.store.get? m.config.storageKey = none := by
  intro cipher m c entry w s
  clear_value cipher
  have hm : m.cipher.isSome = true := rfl
  have hrev : m.revealed ((Entries.empty.insert m.config.storageKey entry).get? m.config.storageKey) = .ok (some c) :=
    revealed_get?_insert rfl c
  have hs : s = (State.new (Entries.empty.insert m.config.storageKey entry) (.ofList [])).deeds .memory
      [.runs .restore fun _ => (w, ⟨0, 0⟩),
        .runs .restore fun _ => ({ w with faults := { load := some .notAuthentic } }, ⟨0, 0⟩)] := rfl
  have h := State.deed_restore (b := .memory)
    (s := State.new (Entries.empty.insert m.config.storageKey entry) (.ofList [])) hm rfl (fun _ => (w, ⟨0, 0⟩))
    rfl hrev
  rw [State.deeds_cons] at hs
  generalize State.deed .memory (State.new (Entries.empty.insert m.config.storageKey entry) (.ofList []))
    (.runs .restore fun _ => (w, ⟨0, 0⟩)) = s₁ at h hs
  obtain ⟨hslot, hstore⟩ := h
  have h := State.deed_restore_of_failed (b := .memory) (s := s₁) hm (by rw [hslot]; rfl)
    (fun _ => ({ w with faults := { load := some .notAuthentic } }, ⟨0, 0⟩)) rfl rfl
  rw [State.deeds_cons, State.deeds_nil] at hs
  rw [hs, h.1, h.2, hslot, hstore]
  refine ⟨rfl, rfl, ?_⟩
  exact (Entries.get?_erase _ _ _).trans (if_pos rfl)

end ClientAuth.Interleaving
