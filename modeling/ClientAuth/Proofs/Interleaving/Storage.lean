import ClientAuth.Proofs.Interleaving.Supersession
import ClientAuth.Proofs.Store.Plain

/-!
# Futures and the store

A store is lawful if what it shows under a key is what was last put there. Of a lawful store whose operations succeed,
the entry of a manager is what the newest write that took effect has left (`Shown`).
-/

namespace ClientAuth

/-- A store that shows under a key what was last put there, by operations that succeeded. -/
structure Backing.Lawful {σ : Type} (b : Backing σ) (view : σ → String → Option String) : Prop where
  load : ∀ s key entry, b.load s key = .ok entry → entry = view s key
  save : ∀ s key blob s', b.save s key blob = (.ok (), s') → view s' key = some blob
  remove : ∀ s key s', b.remove s key = (.ok (), s') → view s' key = none

/-- A store that behaves as a map is lawful. -/
theorem Backing.IsMap.lawful {σ : Type} {b : Backing σ} {view : σ → String → Option String} (h : b.IsMap view) :
    b.Lawful view := by
  refine ⟨?_, ?_, ?_⟩
  · intro s key entry hload
    exact Except.ok.inj (hload.symm.trans (h.load s key))
  · intro s key blob s' hsave
    obtain rfl : (b.save s key blob).2 = s' := congrArg Prod.snd hsave
    exact h.view_save s key blob
  · intro s key s' hremove
    obtain rfl : (b.remove s key).2 = s' := congrArg Prod.snd hremove
    exact h.view_remove s key

/-- The store in memory is lawful. -/
theorem Backing.memory_lawful : Backing.memory.Lawful Entries.get? :=
  Backing.memory_isMap.lawful

/-- A lawful store stays so when some of its operations are made to fail. -/
theorem Backing.Lawful.failing {σ : Type} {b : Backing σ} {view : σ → String → Option String} (h : b.Lawful view)
    (f : Faults) : (b.failing f).Lawful view := by
  refine ⟨fun s key entry hl => h.load s key entry (Backing.load_of_failing hl), ?_, ?_⟩
  · intro s key blob s' hs
    rcases b.failing_save_cases f s key blob with he | ⟨e, he⟩
    · exact h.save s key blob s' (he.symm.trans hs)
    · cases he.symm.trans hs
  · intro s key s' hs
    rcases b.failing_remove_cases f s key with he | ⟨e, he⟩
    · exact h.remove s key s' (he.symm.trans hs)
    · cases he.symm.trans hs

namespace Call

/-- Whether a call on the store succeeded; a call on the service may fail. -/
def Succeeds : (c : Call) → c.Answer → Prop
  | fetchNonce, _ | enroll _, _ => True
  | load _, a => ∃ entry, (a : Except VaultError (Option String)) = .ok entry
  | save _ _, a => (a : Except VaultError Unit) = .ok ()
  | remove _, a => (a : Except VaultError Unit) = .ok ()

/-- What a call that succeeds leaves of an entry. -/
def left : Call → Option String → Option String
  | save _ blob, _ => some blob
  | remove _, _ => none
  | fetchNonce, entry | enroll _, entry | load _, entry => entry

end Call

namespace Interleaving

variable {m : Manager} {σ : Type} {b : Backing σ} {view : σ → String → Option String}

/-- The entry of the manager after a call that succeeded. -/
theorem view_answer (hb : b.Lawful view) (w : Weather) (store : σ) (stage : Stage)
    (ha : (stage.call m).Succeeds ((w.world b store).answer (stage.call m)).1) :
    view ((w.world b store).answer (stage.call m)).2 m.config.storageKey =
      (stage.call m).left (view store m.config.storageKey) := by
  have hf := hb.failing w.faults
  have hremove : ((b.failing w.faults).remove store m.config.storageKey).1 = .ok () →
      view ((b.failing w.faults).remove store m.config.storageKey).2 m.config.storageKey = none :=
    fun h => hf.remove _ _ _ (Prod.ext h rfl)
  cases stage with
  | removingOld x => exact hremove ha
  | cleaningUp x e => exact hremove ha
  | removing => exact hremove ha
  | discarding e => exact hremove ha
  | fetchingNonce x => rfl
  | enrolling x request => rfl
  | loading g => rfl
  | saving x c blob => exact hf.save store m.config.storageKey blob _ (Prod.ext ha rfl)

/-- A load that succeeds finds the entry of the manager. -/
theorem view_load (hb : b.Lawful view) (w : Weather) (store : σ) (g : Nat) {entry : Option String}
    (ha : ((w.world b store).answer ((Stage.loading g).call m)).1 = Except.ok entry) :
    entry = view store m.config.storageKey :=
  (hb.failing w.faults).load _ _ _ ha

/-! ## Saves, loads and removals in a course -/

/-- Whether the credential of an exchange has yet to be saved, or will never be. -/
def Phase.Unsaved : Phase m → Prop
  | unanswered (.waiting (.cleaningUp _ _)) | answered (.saving _ _ _) _ | answered (.cleaningUp _ _) _ => False
  | _ => True

namespace Course

variable {i : Nat} {f : Phase m} {es : List Event}

/-- Nothing is saved before the save that an exchange waits for. -/
theorem save_not_mem (hc : Course m i f es) (hf : f.Unsaved) (key blob : String) (a : (Call.save key blob).Answer) :
    .performed i (.save key blob) a ∉ es := by
  induction hc with
  | made _ => simp
  | @performed stage es a' _ ih =>
    rw [List.mem_cons, not_or]
    cases stage with
    | saving x c blob => exact hf.elim
    | cleaningUp x e => exact hf.elim
    | removingOld x => exact ⟨(fun h => by cases h), ih trivial⟩
    | fetchingNonce x => exact ⟨(fun h => by cases h), ih trivial⟩
    | enrolling x request => exact ⟨(fun h => by cases h), ih trivial⟩
    | removing => exact ⟨(fun h => by cases h), ih trivial⟩
    | loading g => exact ⟨(fun h => by cases h), ih trivial⟩
    | discarding e => exact ⟨(fun h => by cases h), ih trivial⟩
  | @ran f es s s' stage _ hr ih =>
    rw [List.mem_cons, not_or]
    refine ⟨by simp, ih ?_⟩
    cases hx : f.task.exchange? with
    | some x =>
      cases run?_turn hx hr with
      | givesUp _ _ _ => exact hf.elim
      | removes _ => trivial
      | starts _ => trivial
      | removed a => trivial
      | asks nonce => trivial
      | seals _ _ _ => trivial
    | none => cases run?_sideTurn hx hr <;> trivial

/-- A call was performed for a stage of what the future was made for. -/
theorem stage_of_performed (hc : Course m i f es) {c : Call} {a : c.Answer} (hp : .performed i c a ∈ es) :
    ∃ stage, stage.call m = c ∧ (Task.waiting stage).origin = f.task.origin := by
  induction hc with
  | made _ => simp at hp
  | @performed stage es a' _ ih =>
    rcases List.mem_cons.1 hp with he | hp
    · injection he with _ hcall
      exact ⟨stage, hcall.symm, rfl⟩
    · exact ih hp
  | ran _ hr ih =>
    obtain ⟨stage, hcall, ho⟩ := ih (by simpa using hp)
    exact ⟨stage, hcall, ho.trans (run?_origin hr).symm⟩

/-- Only an exchange saves. -/
theorem exchange_of_save (hc : Course m i f es) {key blob : String} {a : (Call.save key blob).Answer}
    (hs : .performed i (.save key blob) a ∈ es) : ∃ x, f.task.exchange? = some x := by
  obtain ⟨stage, hcall, ho⟩ := hc.stage_of_performed hs
  cases stage with
  | saving x c blob => exact ⟨x, (Task.exchange?_iff_origin _ x).2 ho.symm⟩
  | _ => cases hcall

/-- Only a restore loads. -/
theorem origin_of_load (hc : Course m i f es) {key : String} {a : (Call.load key).Answer}
    (hl : .performed i (.load key) a ∈ es) : f.task.origin = .restore := by
  obtain ⟨stage, hcall, ho⟩ := hc.stage_of_performed hl
  cases stage with
  | loading g => exact ho.symm
  | _ => cases hcall

/-- A restore loads once. -/
theorem load_eq {g : Nat} {a : (Stage.call m (.loading g)).Answer} (hc : Course m i (.answered (.loading g) a) es)
    {key : String} {a' : (Call.load key).Answer} (hl : .performed i (.load key) a' ∈ es) :
    Event.performed i (.load key) a' = .performed i ((Stage.loading g).call m) a := by
  obtain ⟨es₁, rfl, hc₁⟩ := hc.of_answered
  obtain ⟨f, es₂, s, s', rfl, hc₂, hr⟩ := hc₁.of_waiting
  obtain ⟨rfl, -, -, -⟩ := run?_loading hr
  rw [hc₂.eq_of_start (by simp)] at hl
  simpa using hl

end Course

/-! ## The entry of a manager -/

/-- Every call on the store that took effect succeeded. -/
def Flawless (h : List Event) : Prop := ∀ i c a, .performed i c a ∈ h → c.Succeeds a

theorem Flawless.mono {h h' : List Event} (hf : Flawless h') (hs : h <:+ h') : Flawless h :=
  fun i c a hm => hf i c a (hs.subset hm)

/-- What a row of events leaves of an entry. -/
def entryAfter (entry : Option String) : List Event → Option String
  | [] => entry
  | .performed _ c _ :: h => c.left (entryAfter entry h)
  | _ :: h => entryAfter entry h

/-- Events other than calls leave an entry alone. -/
theorem entryAfter_append {entry : Option String} {es h : List Event} (hes : ∀ i c a, .performed i c a ∉ es) :
    entryAfter entry (es ++ h) = entryAfter entry h := by
  induction es with
  | nil => rfl
  | cons e es ih =>
    have ih := ih fun i c a hm => hes i c a (List.mem_cons_of_mem _ hm)
    cases e with
    | performed i c a => exact absurd List.mem_cons_self (hes i c a)
    | called i t => exact ih
    | ran i t now => exact ih
    | abandoned i => exact ih
    | resolved i o => exact ih

/-- A change performs a call, or it leaves the store alone. -/
theorem State.Change.store_cases {s s' : State m σ} {move : Move} (h : State.Change b s move s') :
    (s'.store = s.store ∧ ∃ es, s'.history = es ++ s.history ∧ ∀ i c a, .performed i c a ∉ es) ∨
    ∃ i w stage aborted, s.futures i = some ⟨.unanswered (.waiting stage), aborted⟩ ∧
      s' = s.perform b i w stage aborted := by
  cases h with
  | still => exact Or.inl ⟨rfl, [], rfl, by simp⟩
  | begins _ _ => exact Or.inl ⟨rfl, [_], rfl, by simp⟩
  | refuses _ => exact Or.inl ⟨rfl, [_], rfl, by simp⟩
  | asksClear => exact Or.inl ⟨rfl, [_], rfl, by simp⟩
  | asksRestore => exact Or.inl ⟨rfl, [_], rfl, by simp⟩
  | performs hf => exact Or.inr ⟨_, _, _, _, hf, rfl⟩
  | aborts _ _ => exact Or.inl ⟨rfl, [], rfl, by simp⟩
  | drops _ => exact Or.inl ⟨rfl, [_], rfl, by simp⟩
  | cutsOff _ _ => exact Or.inl ⟨rfl, [_, _], rfl, by simp⟩
  | @polls i now f run _ _ _ =>
    refine Or.inl ⟨State.settle_store _ _, ?_⟩
    obtain ⟨es, he, hes⟩ := State.ran_history s i f.phase.task now run
    refine ⟨es ++ [.ran i f.phase.task now], by simp [he], fun j c a hm => ?_⟩
    rw [List.mem_append, List.mem_singleton] at hm
    rcases hm with hm | hm
    · obtain ⟨o, ho⟩ := hes _ hm
      cases ho
    · cases hm

/-- The entry of the manager is what the calls that took effect have left. -/
def Shown (view : σ → String → Option String) (entry : Option String) (s : State m σ) : Prop :=
  Flawless s.history → view s.store m.config.storageKey = entryAfter entry s.history

/-- Every change shows in the entry what it did. -/
theorem Shown.change (hb : b.Lawful view) {entry : Option String} {s s' : State m σ} (hs : Shown view entry s)
    {move : Move} (h : State.Change b s move s') : Shown view entry s' := by
  intro hf
  have hold := hs (hf.mono h.history_suffix)
  rcases h.store_cases with ⟨hst, es, hh, hes⟩ | ⟨i, w, stage, aborted, -, rfl⟩
  · rw [hst, hh, entryAfter_append hes, hold]
  · have ha := hf i (stage.call m) _ List.mem_cons_self
    have hview := view_answer hb w s.store stage ha
    rw [hold] at hview
    exact hview

/-- In every interleaving the entry of the manager is what the calls that took effect have left. -/
theorem Shown.run (hb : b.Lawful view) (store : σ) (nonces : Nonces) (moves : List Move) :
    Shown view (view store m.config.storageKey) ((State.new store nonces : State m σ).run b moves) :=
  State.run_invariant (fun s move hs => hs.change hb (s.step_change b move)) moves fun _ => rfl

end Interleaving

end ClientAuth
