import ClientAuth.Proofs.Interleaving.Progress
import ClientAuth.Proofs.Interleaving.Renumbering
import ClientAuth.Proofs.Interleaving.Supersession
import ClientAuth.Proofs.Store.Plain
import Mathlib.Data.Option.Basic

/-!
# Clearing twice

To clear a manager a second time takes one more generation and one more future, and nothing else (`Cleared.alike`). From
then on both numberings of generations and of futures have a gap, past which all goes on as after one clear (`Alike.run`).
So nobody can tell that there were two (`clearing_twice_is_clearing_once`).
-/

namespace ClientAuth.Interleaving

/-- Counts on past a number that is left out, the one after a given one. -/
def skip (k i : Nat) : Nat := if i ≤ k then i else i + 1

theorem skip_of_le {k i : Nat} (h : i ≤ k) : skip k i = i := if_pos h

theorem skip_of_lt {k i : Nat} (h : k < i) : skip k i = i + 1 := if_neg (Nat.not_le.2 h)

theorem skip_injective (k : Nat) : (skip k).Injective := by
  intro i j h
  simp only [skip] at h
  split at h <;> split at h <;> omega

/-- Past the gap, numbers follow one another as they did. -/
theorem skip_succ {k i : Nat} (h : k < i) : skip k (i + 1) = skip k i + 1 := by
  rw [skip_of_lt h, skip_of_lt (Nat.lt_succ_of_lt h)]

/-- The number that is left out is none of those counted. -/
theorem skip_ne (k i : Nat) : skip k i ≠ k + 1 := by
  unfold skip
  split <;> omega

variable {m : Manager} {σ : Type} {b : Backing σ} {view : σ → String → Option String} {f ι : Nat → Nat}

/-! ## Futures and events under other numbers -/

/-- A phase with other numbers for generations. -/
def Phase.renumber (f : Nat → Nat) : Phase m → Phase m
  | unanswered t => unanswered (t.renumber f)
  | answered stage a => answered (stage.renumber f) (Stage.renumberAnswer f a)

/-- A future with other numbers for generations. -/
def Future.renumber (f : Nat → Nat) (fu : Future m) : Future m := { fu with phase := fu.phase.renumber f }

/-- An event with other numbers for generations and for futures. -/
def Event.renumber (f ι : Nat → Nat) : Event → Event
  | called i t => called (ι i) (t.renumber f)
  | ran i t now => ran (ι i) (t.renumber f) now
  | performed i c a => performed (ι i) c a
  | abandoned i => abandoned (ι i)
  | resolved i o => resolved (ι i) o

/-- A move with other numbers for futures. -/
def Move.renumber (ι : Nat → Nat) : Move → Move
  | obtain p => obtain p
  | clear => clear
  | restore => restore
  | poll i now => poll (ι i) now
  | perform i w => perform (ι i) w
  | abort i => abort (ι i)
  | drop i => drop (ι i)

namespace Phase

@[simp] theorem task_renumber (p : Phase m) : (p.renumber f).task = p.task.renumber f := by
  cases p <;> rfl

/-- A poll comes to what it came to. -/
theorem run?_alike (hf : f.Injective) (p : Phase m) {s t : Scene}
    (hnext : f (s.slot.generation + 1) = f s.slot.generation + 1) (h : s.Alike f t) :
    Option.Rel (Run.Alike f) (p.run? s) ((p.renumber f).run? t) := by
  cases p with
  | answered stage a => exact .some (stage.resume_alike hf m a h)
  | unanswered task =>
    cases task with
    | waiting stage => exact .none
    | refused e => exact .some (Task.start_alike m (.refused e) hnext h)
    | exchange x => exact .some (Task.start_alike m (.exchange x) hnext h)
    | clear => exact .some (Task.start_alike m .clear hnext h)
    | restore => exact .some (Task.start_alike m .restore hnext h)

end Phase

/-- Two stores that show the same answer alike, and show the same after it. -/
theorem answer_eq (hb : b.IsMap view) {store store' : σ} (h : view store' = view store) (w : Weather) (c : Call) :
    ((w.world b store').answer c).1 = ((w.world b store).answer c).1 ∧
      view ((w.world b store').answer c).2 = view ((w.world b store).answer c).2 := by
  cases c with
  | fetchNonce => exact ⟨rfl, h⟩
  | enroll request => exact ⟨rfl, h⟩
  | load key =>
    refine ⟨?_, h⟩
    simp only [World.answer, Weather.world, Backing.failing, hb.load, h]
    cases w.faults.load with
    | none => rfl
    | some e => rfl
  | save key blob =>
    simp only [World.answer, Weather.world, Backing.failing]
    cases w.faults.save with
    | none => exact ⟨(hb.save _ _ _).1.trans (hb.save _ _ _).1.symm, by rw [(hb.save _ _ _).2, (hb.save _ _ _).2, h]⟩
    | some e => exact ⟨rfl, h⟩
  | remove key =>
    simp only [World.answer, Weather.world, Backing.failing]
    cases w.faults.remove with
    | none => exact ⟨(hb.remove _ _).1.trans (hb.remove _ _).1.symm, by rw [(hb.remove _ _).2, (hb.remove _ _).2, h]⟩
    | some e => exact ⟨rfl, h⟩

/-- A stage under other numbers waits for the same call, and is answered alike. -/
theorem answer_renumber (hb : b.IsMap view) {store store' : σ} (h : view store' = view store) (w : Weather)
    (stage : Stage) :
    ((w.world b store').answer ((stage.renumber f).call m)).1 =
        Stage.renumberAnswer f ((w.world b store).answer (stage.call m)).1 ∧
      view ((w.world b store').answer ((stage.renumber f).call m)).2 =
        view ((w.world b store).answer (stage.call m)).2 := by
  cases stage <;> exact answer_eq hb h w _

theorem performed_renumber (stage : Stage) (i : Nat) (a : (stage.call m).Answer) :
    Event.performed i ((stage.renumber f).call m) (Stage.renumberAnswer f a) = .performed i (stage.call m) a := by
  cases stage <;> rfl

/-! ## Managers under other numbers -/

/-- Two managers that differ in a gap after one generation and after one future, and in what had happened to them before.
Their stores show the same. -/
structure Alike (view : σ → String → Option String) (g n : Nat) (past past' : List Event) (s t : State m σ) : Prop where
  slot : t.slot = s.slot.renumber (skip g)
  store : view t.store = view s.store
  nonces : t.nonces = s.nonces
  futures : ∀ i, t.futures (skip n i) = (s.futures i).map (·.renumber (skip g))
  later : n < s.made
  made : t.made = s.made + 1
  history : ∃ since, s.history = since ++ past ∧ t.history = since.map (.renumber (skip g) (skip n)) ++ past'

namespace Alike

variable {g n : Nat} {past past' : List Event} {s t s' t' : State m σ}

theorem scene (h : Alike view g n past past' s t) (now : Instant) : (s.scene now).Alike (skip g) (t.scene now) :=
  ⟨h.slot, h.nonces, rfl⟩

/-- Something has become of one future. -/
theorem replace (h : Alike view g n past past' s t) {i : Nat} (fu : Option (Future m)) (es : List Event)
    (hslot : t'.slot = s'.slot.renumber (skip g)) (hstore : view t'.store = view s'.store)
    (hnonces : t'.nonces = s'.nonces)
    (hfutures : s'.futures = Function.update s.futures i fu ∧
      t'.futures = Function.update t.futures (skip n i) (fu.map (·.renumber (skip g))))
    (hmade : s'.made = s.made ∧ t'.made = t.made)
    (hhistory : s'.history = es ++ s.history ∧ t'.history = es.map (.renumber (skip g) (skip n)) ++ t.history) :
    Alike view g n past past' s' t' := by
  refine ⟨hslot, hstore, hnonces, ?_, by rw [hmade.1]; exact h.later, by rw [hmade.1, hmade.2]; exact h.made, ?_⟩
  · intro j
    rw [hfutures.1, hfutures.2]
    by_cases hj : j = i
    · rw [hj, Function.update_self, Function.update_self]
    · rw [Function.update_of_ne hj, Function.update_of_ne ((skip_injective n).ne hj), h.futures]
  · obtain ⟨since, hs, ht⟩ := h.history
    exact ⟨es ++ since, by rw [hhistory.1, hs, List.append_assoc],
      by rw [hhistory.2, ht, List.map_append, List.append_assoc]⟩

/-- A future is made. -/
theorem add (h : Alike view g n past past' s t) (task : Task) :
    Alike view g n past past' (s.add task) (t.add (task.renumber (skip g))) := by
  have hmade : t.made = skip n s.made := h.made.trans (skip_of_lt h.later).symm
  refine ⟨h.slot, h.store, h.nonces, ?_, Nat.lt_succ_of_lt h.later, congrArg (· + 1) h.made, ?_⟩
  · intro i
    simp only [State.add, hmade]
    by_cases hi : i = s.made
    · rw [hi, Function.update_self, Function.update_self]
      rfl
    · rw [Function.update_of_ne hi, Function.update_of_ne ((skip_injective n).ne hi), h.futures]
  · obtain ⟨since, hs, ht⟩ := h.history
    refine ⟨.called s.made task :: since, by simp only [State.add, hs, List.cons_append], ?_⟩
    simp only [State.add, hmade, ht, List.map_cons, Event.renumber, List.cons_append]

/-- A future is dropped, and something more may happen to it. -/
theorem abandon (h : Alike view g n past past' s t) (i : Nat) (task : Task) (es : List Event) :
    Alike view g n past past' { s.abandon i task with history := es ++ (s.abandon i task).history }
      { t.abandon (skip n i) (task.renumber (skip g)) with
        history := es.map (.renumber (skip g) (skip n)) ++
          (t.abandon (skip n i) (task.renumber (skip g))).history } := by
  refine h.replace none (es ++ [.abandoned i]) ?_ h.store h.nonces ⟨rfl, rfl⟩ ⟨rfl, rfl⟩ ⟨?_, ?_⟩
  · simp only [State.abandon, h.slot]
    exact task.drop_renumber (skip_injective g) s.slot
  · simp only [State.abandon, List.append_assoc, List.singleton_append]
  · simp only [State.abandon, List.map_append, List.map_cons, List.map_nil, Event.renumber, List.append_assoc,
      List.singleton_append]

/-- What a poll has come to is kept. -/
theorem settle (h : Alike view g n past past' s t) (i : Nat) (task : Task) (now : Instant) {run run' : Run}
    (hrun : Run.Alike (skip g) run run') :
    Alike view g n past past' (State.settle { s with history := .ran i task now :: s.history } i run)
      (State.settle { t with history := .ran (skip n i) (task.renumber (skip g)) now :: t.history } (skip n i) run') := by
  obtain ⟨p, scene⟩ := run
  obtain ⟨p', scene'⟩ := run'
  obtain ⟨hprogress, hscene⟩ := hrun
  obtain rfl : p' = p.renumber (skip g) := hprogress
  cases p with
  | waiting stage =>
    exact h.replace (some ⟨.unanswered (.waiting stage), false⟩) [.ran i task now] hscene.slot h.store hscene.nonces
      ⟨rfl, rfl⟩ ⟨rfl, rfl⟩ ⟨rfl, rfl⟩
  | finished o =>
    exact h.replace none [.resolved i o, .ran i task now] hscene.slot h.store hscene.nonces
      ⟨rfl, rfl⟩ ⟨rfl, rfl⟩ ⟨rfl, rfl⟩

/-- A poll does what it did. -/
theorem poll (h : Alike view g n past past' s t) (hlate : g < s.slot.generation) (i : Nat) (now : Instant)
    (fu : Future m) :
    Alike view g n past past' (s.poll i now fu) (t.poll (skip n i) now (fu.renumber (skip g))) := by
  unfold State.poll
  simp only [Future.renumber, Phase.task_renumber]
  split
  · exact h.abandon i fu.phase.task [.resolved i (.error .cancelled)]
  · have hrun := fu.phase.run?_alike (skip_injective g) (s := s.scene now) (skip_succ hlate) (h.scene now)
    generalize fu.phase.run? (s.scene now) = r at hrun ⊢
    generalize (fu.phase.renumber (skip g)).run? (t.scene now) = r' at hrun ⊢
    cases hrun with
    | none => exact h
    | some hrun => exact h.settle i fu.phase.task now hrun

/-- A call takes effect as it did. -/
theorem perform (hb : b.IsMap view) (h : Alike view g n past past' s t) (i : Nat) (w : Weather) (stage : Stage)
    (aborted : Bool) :
    Alike view g n past past' (s.perform b i w stage aborted)
      (t.perform b (skip n i) w (stage.renumber (skip g)) aborted) := by
  obtain ⟨ha, hstore⟩ := answer_renumber (m := m) (f := skip g) hb h.store w stage
  refine h.replace (some ⟨.answered stage ((w.world b s.store).answer (stage.call m)).1, aborted⟩)
    [.performed i (stage.call m) ((w.world b s.store).answer (stage.call m)).1] h.slot hstore h.nonces
    ⟨rfl, ?_⟩ ⟨rfl, rfl⟩ ⟨rfl, ?_⟩
  · simp only [State.perform, ha]
    rfl
  · simp only [State.perform, ha, performed_renumber]
    rfl

/-- A move does what it did. -/
theorem step (hb : b.IsMap view) (h : Alike view g n past past' s t) (hlate : g < s.slot.generation) (move : Move) :
    Alike view g n past past' (s.step b move) (t.step b (move.renumber (skip n))) := by
  cases move with
  | obtain p =>
    have hbegin := Exchange.begin_renumber (f := skip g) p (skip_succ hlate)
    rw [← h.slot] at hbegin
    have hbegun : Alike view g n past past' { s with slot := (Exchange.begin p s.slot).2 }
        { t with slot := (Exchange.begin p s.slot).2.renumber (skip g) } :=
      ⟨rfl, h.store, h.nonces, h.futures, h.later, h.made, h.history⟩
    simp only [Move.renumber, State.step, hbegin, Task.ofBegun_renumber]
    exact hbegun.add _
  | clear => exact h.add .clear
  | restore => exact h.add .restore
  | poll i now =>
    simp only [Move.renumber, State.step, h.futures]
    cases s.futures i with
    | none => exact h
    | some fu => exact h.poll hlate i now fu
  | perform i w =>
    simp only [Move.renumber, State.step, h.futures]
    cases s.futures i with
    | none => exact h
    | some fu =>
      obtain ⟨phase, aborted⟩ := fu
      cases phase with
      | answered stage a => exact h
      | unanswered task =>
        cases task with
        | waiting stage => exact h.perform hb i w stage aborted
        | _ => exact h
  | abort i =>
    simp only [Move.renumber, State.step, h.futures]
    cases s.futures i with
    | none => exact h
    | some fu =>
      simp only [Option.map_some, Future.renumber, Phase.task_renumber, Task.isObtain_renumber]
      split
      · exact h.replace (some { fu with aborted := true }) [] h.slot h.store h.nonces ⟨rfl, rfl⟩ ⟨rfl, rfl⟩ ⟨rfl, rfl⟩
      · exact h
  | drop i =>
    simp only [Move.renumber, State.step, h.futures]
    cases s.futures i with
    | none => exact h
    | some fu =>
      simp only [Option.map_some, Future.renumber, Phase.task_renumber]
      exact h.abandon i fu.phase.task []

/-- Any moves do what they did. -/
theorem run (hb : b.IsMap view) (h : Alike view g n past past' s t) (hlate : g < s.slot.generation) (moves : List Move) :
    Alike view g n past past' (s.run b moves) (t.run b (moves.map (.renumber (skip n)))) := by
  induction moves generalizing s t with
  | nil => exact h
  | cons move moves ih =>
    refine ih (h.step hb hlate move) ?_
    rcases (s.step_change b move).generation with ⟨-, -, -, hgeneration⟩ | ⟨-, -, -, -, -, -, hgeneration⟩
    · rw [hgeneration]
      exact hlate
    · rw [hgeneration]
      exact Nat.lt_succ_of_lt hlate

end Alike

/-! ## One clear and two -/

/-- A future whose task keeps its numbers is the same. -/
theorem Future.renumber_eq_self {fu : Future m} (h : fu.phase.task.renumber f = fu.phase.task) : fu.renumber f = fu := by
  obtain ⟨phase, aborted⟩ := fu
  refine congrArg (Future.mk · aborted) ?_
  cases phase with
  | unanswered t => exact congrArg Phase.unanswered h
  | answered stage a =>
    simp only [Phase.renumber, Phase.answered.injEq]
    exact ⟨Task.waiting.inj h, cast_heq _ _⟩

/-- The numbers that live futures have are not past the generation of the slot. -/
theorem renumber_live {s : State m σ} (g : Guarded s) (t : Timely s) {i : Nat} {fu : Future m}
    (hfu : s.futures i = some fu) : fu.renumber (skip s.slot.generation) = fu := by
  refine Future.renumber_eq_self (Task.renumber_eq_self ?_ ?_)
  · intro x hx
    exact skip_of_le (g.ticket_le ((State.exchange?_of_future hfu).trans hx))
  · intro k hk
    exact skip_of_le (t.loading i fu k hfu hk).1

/-- What a clear comes to if nothing else is done meanwhile. -/
structure Cleared (view : σ → String → Option String) (s s' : State m σ) : Prop where
  slot : s'.slot = s.slot.clear
  nonces : s'.nonces = s.nonces
  futures : s'.futures = s.futures
  made : s'.made = s.made + 1
  store : view s'.store =
    if m.cipher.isSome then Function.update (view s.store) m.config.storageKey none else view s.store
  resolved : .resolved s.made (.ok none) ∈ s'.history
  history : ∃ es, s'.history = es ++ s.history ∧ ∀ e ∈ es, e.future = s.made

/-- After a second clear, all is as after the first, but for a gap in the numbers. -/
theorem Cleared.alike {s s₁ s₂ : State m σ} (g : Guarded s) (t : Timely s) (h₁ : Cleared view s s₁)
    (h₂ : Cleared view s₁ s₂) : Alike view s.slot.generation s.made s₁.history s₂.history s₁ s₂ := by
  have hmade : s₁.made = s.made + 1 := h₁.made
  refine ⟨?_, ?_, h₂.nonces, ?_, hmade ▸ Nat.lt_succ_self _, h₂.made, [], rfl, rfl⟩
  · have hinFlight : s.slot.inFlight.map (skip s.slot.generation) = s.slot.inFlight := by
      cases hf : s.slot.inFlight with
      | none => rfl
      | some ticket =>
        obtain ⟨i, x, hx, rfl⟩ := g.holder ticket hf
        rw [Option.map_some, skip_of_le (g.ticket_le hx)]
    have hgeneration : skip s.slot.generation (s.slot.generation + 1) = s.slot.generation + 1 + 1 :=
      skip_of_lt (Nat.lt_succ_self _)
    simp only [h₂.slot, h₁.slot, Slot.clear, Slot.renumber, hinFlight, hgeneration]
  · rw [h₂.store, h₁.store]
    split
    · exact Function.update_idem _ _ _
    · rfl
  · intro i
    rw [h₂.futures, h₁.futures]
    by_cases hi : i ≤ s.made
    · rw [skip_of_le hi]
      cases hfu : s.futures i with
      | none => rfl
      | some fu => rw [Option.map_some, renumber_live g t hfu]
    · have hnone (j : Nat) (hj : s.made < j) : s.futures j = none := by
        by_contra hlive
        obtain ⟨fu, hfu⟩ := Option.ne_none_iff_exists'.1 hlive
        exact Nat.lt_asymm hj (g.live_lt j fu hfu)
      rw [skip_of_lt (Nat.not_le.1 hi), hnone i (Nat.not_le.1 hi), hnone (i + 1) (by omega)]
      rfl

/-- A clear that is driven to its end, and that the store does not fail. -/
theorem cleared_of_driven (hb : b.IsMap view) {s : State m σ} (hlive : s.futures s.made = none) (r r' : Weather × Instant)
    (hr : r'.1.faults.remove = none) : Cleared view s (s.run b (.clear :: drive s.made [r, r'])) := by
  obtain ⟨w, now⟩ := r
  obtain ⟨w', now'⟩ := r'
  replace hr : w'.faults.remove = none := hr
  have hgone : Function.update s.futures s.made none = s.futures := by rw [← hlive, Function.update_eq_self]
  -- without a cipher nothing is removed, and the moves after the first poll find no future
  have hmoves : drive s.made [(w, now), (w', now')] =
      [.perform s.made w, .poll s.made now, .perform s.made w', .poll s.made now'] := rfl
  cases hm : m.cipher.isSome with
  | false =>
    have hs' : s.run b (.clear :: drive s.made [(w, now), (w', now')]) =
        { s with
          slot := s.slot.clear
          log := s.log ++ [.cleared]
          made := s.made + 1
          history := [.resolved s.made (.ok none), .ran s.made .clear now, .called s.made .clear] ++ s.history } := by
      simp [hmoves, State.step, State.add, State.poll, Phase.run?, Phase.task, Task.start, Manager.startClear, hm,
        State.settle, State.scene, Scene.record, hgone, hlive]
    rw [hs']
    exact ⟨rfl, rfl, rfl, rfl, by rw [hm]; rfl, List.mem_cons_self, _, rfl, by simp [Event.future]⟩
  | true =>
    have hanswer : (w'.world b s.store).answer (.remove m.config.storageKey) =
        (Except.ok (), (b.remove s.store m.config.storageKey).2) := by
      simp only [World.answer, Weather.world, Backing.failing, hr]
      exact Prod.ext (hb.remove _ _).1 rfl
    have hs' : s.run b (.clear :: drive s.made [(w, now), (w', now')]) =
        { s with
          slot := s.slot.clear
          store := (b.remove s.store m.config.storageKey).2
          log := s.log ++ [.cleared]
          made := s.made + 1
          history := [.resolved s.made (.ok none), .ran s.made (.waiting .removing) now',
            .performed s.made (.remove m.config.storageKey) (Except.ok ()), .ran s.made .clear now,
            .called s.made .clear] ++ s.history } := by
      simp [hmoves, State.step, State.add, State.poll, Phase.run?, Phase.task, Task.start, Manager.startClear, hm,
        State.settle, State.perform, Stage.call, hanswer, Stage.resume, State.scene, Scene.record, hgone]
    rw [hs']
    exact ⟨rfl, rfl, rfl, rfl, by rw [hm]; exact (hb.remove _ _).2, List.mem_cons_self, _, rfl, by simp [Event.future]⟩

theorem mem_map_renumber {g n i : Nat} {o : Outcome} {es : List Event} :
    .resolved (skip n i) o ∈ es.map (Event.renumber (skip g) (skip n)) ↔ .resolved i o ∈ es := by
  rw [List.mem_map]
  constructor
  · rintro ⟨e, he, heq⟩
    cases e with
    | resolved j o' =>
      simp only [Event.renumber, Event.resolved.injEq] at heq
      obtain ⟨hj, rfl⟩ := heq
      rwa [skip_injective n hj] at he
    | _ => cases heq
  · intro h
    exact ⟨_, h, rfl⟩

/-- The second clear adds no resolution but its own. -/
theorem Cleared.resolved_iff {s s₁ s₂ : State m σ} (g₁ : Guarded s₁) (h₁ : Cleared view s s₁) (h₂ : Cleared view s₁ s₂)
    (i : Nat) (o : Outcome) : .resolved (skip s.made i) o ∈ s₂.history ↔ .resolved i o ∈ s₁.history := by
  obtain ⟨es, hes, hfuture⟩ := h₂.history
  have hother : .resolved (skip s.made i) o ∉ es := by
    intro hmem
    refine skip_ne s.made i ?_
    rw [← h₁.made]
    exact hfuture _ hmem
  rw [hes, List.mem_append, or_iff_right hother]
  by_cases hi : i ≤ s.made
  · rw [skip_of_le hi]
  · rw [skip_of_lt (Nat.not_le.1 hi)]
    have hlt (j : Nat) (hj : .resolved j o ∈ s₁.history) : j < s.made + 1 := by
      rw [← h₁.made]
      exact g₁.ended_lt j (.inr ⟨o, hj⟩)
    constructor
    · intro h
      have := hlt _ h
      omega
    · intro h
      have := hlt _ h
      omega

/-- A manager in any state that can be reached, over a store that behaves as a map, is cleared to the end, with nothing
else done meanwhile; or it is cleared so twice in a row. Whatever is done next, even if the store fails then, is the same
in both cases: the same futures resolve to the same outcomes in the same order, the slot stands the same and shows the same
header and identity, and the store shows the same entries. Only the numbers differ, by the one that the second clear has
taken from the futures and the one it has taken from the generations. -/
theorem clearing_twice_is_clearing_once (hb : b.IsMap view) (store : σ) (nonces : Nonces) (moves : List Move)
    (r₁ r₂ r₃ r₄ : Weather × Instant) (hr₂ : r₂.1.faults.remove = none) (hr₄ : r₄.1.faults.remove = none) :
    let s : State m σ := (State.new store nonces).run b moves
    let once := s.run b (.clear :: drive s.made [r₁, r₂])
    let twice := once.run b (.clear :: drive once.made [r₃, r₄])
    .resolved s.made (.ok none) ∈ once.history ∧ .resolved once.made (.ok none) ∈ twice.history ∧
    ∀ more : List Move,
      let s₁ := once.run b more
      let s₂ := twice.run b (more.map (.renumber (skip s.made)))
      (∀ i o, .resolved i o ∈ s₁.history ↔ .resolved (skip s.made i) o ∈ s₂.history) ∧
      (∃ since, s₁.history = since ++ once.history ∧
        s₂.history = since.map (.renumber (skip s.slot.generation) (skip s.made)) ++ twice.history) ∧
      s₂.slot.state = s₁.slot.state ∧ s₂.slot.header = s₁.slot.header ∧ s₂.slot.identity = s₁.slot.identity ∧
      view s₂.store = view s₁.store := by
  intro s once twice
  have g : Guarded s := Guarded.run b store nonces moves
  have t : Timely s := Timely.run b store nonces moves
  have g₁ : Guarded once := by
    have h : Guarded ((State.new store nonces : State m σ).run b (moves ++ .clear :: drive s.made [r₁, r₂])) :=
      Guarded.run b store nonces _
    rwa [State.run_append] at h
  have hlive {s : State m σ} (g : Guarded s) : s.futures s.made = none := by
    by_contra hfu
    obtain ⟨fu, hfu⟩ := Option.ne_none_iff_exists'.1 hfu
    exact Nat.lt_irrefl _ (g.live_lt s.made fu hfu)
  have h₁ : Cleared view s once := cleared_of_driven hb (hlive g) r₁ r₂ hr₂
  have h₂ : Cleared view once twice := cleared_of_driven hb (hlive g₁) r₃ r₄ hr₄
  refine ⟨h₁.resolved, h₂.resolved, fun more => ?_⟩
  have hlate : s.slot.generation < once.slot.generation := by
    rw [h₁.slot]
    exact Nat.lt_succ_self _
  have h := (Cleared.alike g t h₁ h₂).run hb hlate more
  obtain ⟨since, hs₁, hs₂⟩ := id h.history
  refine ⟨?_, ⟨since, hs₁, hs₂⟩, ?_, ?_, ?_, h.store⟩
  · intro i o
    rw [hs₁, hs₂, List.mem_append, List.mem_append, mem_map_renumber, Cleared.resolved_iff g₁ h₁ h₂]
  · rw [h.slot, Slot.state_renumber (skip_injective _)]
  · rw [h.slot]
    rfl
  · rw [h.slot]
    rfl

/-- While an exchange is outstanding that was cleared away, another one is refused, after one clear and after two. -/
theorem clearing_twice_is_clearing_once_busy :
    let m : Manager := ⟨{}, .never, some (.ofPassword .aes256Gcm "password")⟩
    let p : Enrollment.Params := { publicKey := [4] }
    let r : Weather × Instant := (⟨.ok "nonce", .error .cancelled, {}⟩, ⟨0, 0⟩)
    let s : State m Entries := (State.new (Entries.empty.insert m.config.storageKey "entry") (.ofList [])).run .memory
      [.obtain p, .poll 0 ⟨0, 0⟩]
    let once := s.run .memory (.clear :: drive 1 [r, r])
    let twice := once.run .memory (.clear :: drive 2 [r, r])
    .resolved 2 (.error .busy) ∈ (once.run .memory [.obtain p, .poll 2 ⟨0, 0⟩]).history ∧
      .resolved 3 (.error .busy) ∈ (twice.run .memory [.obtain p, .poll 3 ⟨0, 0⟩]).history := by
  intro m p r s once twice
  have honce : .resolved 2 (.error .busy) ∈ (once.run .memory [.obtain p, .poll 2 ⟨0, 0⟩]).history :=
    List.mem_cons_self
  refine ⟨honce, ?_⟩
  have h := (clearing_twice_is_clearing_once (m := m) Backing.memory_isMap
    (Entries.empty.insert m.config.storageKey "entry") (.ofList []) [.obtain p, .poll 0 ⟨0, 0⟩] r r r r rfl rfl).2.2
    [.obtain p, .poll 2 ⟨0, 0⟩]
  exact (h.1 2 (.error .busy)).1 honce

end ClientAuth.Interleaving
