import ClientAuth.Proofs.Interleaving.Progress
import ClientAuth.Proofs.Interleaving.Surroundings

/-!
# Polls in a session

A session polls a task by performing its calls, one after another, while their gates are open (`Manager.poll`). The
bound on their number never stops it (`poll_holds`), and what it does is an interleaving, in which every call of the
future is performed right before the poll that takes its answer (`poll_interleaves`).
-/

namespace ClientAuth

/-- What the service and the store answer in a world. -/
def World.weather {σ : Type} (w : World σ) : Interleaving.Weather := ⟨w.nonceAnswer, w.enrollAnswer, w.faults⟩

theorem World.answer_weather {σ : Type} (w : World σ) (c : Call) :
    (w.weather.world w.backing w.store).answer c = w.answer c := by
  cases c <;> rfl

namespace Interleaving

variable {m : Manager} {σ : Type} {b : Backing σ}

/-! ## The calls of a poll -/

theorem advance_finished (calls : Nat) (w : World σ) (o : Outcome) (s : Scene) :
    m.advance calls w (.finished o, s) = ((.finished o, s), w) := by
  cases calls <;> rfl

/-- A task is run on by its call and what comes after, unless the call has to wait. -/
theorem advance_waiting {calls : Nat} {w : World σ} {stage : Stage} (hw : w.holds (stage.call m) = false) (s : Scene) :
    m.advance (calls + 1) w (.waiting stage, s) =
      m.advance calls (w.perform (stage.call m)).2 (stage.resume m (w.answer (stage.call m)).1 s) := by
  simp only [Manager.advance, hw]
  rfl

/-- A poll that leaves a task waiting leaves it at a call that has to wait: the bound on its calls never stops it. -/
theorem advance_holds {calls : Nat} {w w' : World σ} {stage stage' : Stage} {s s' : Scene}
    (hc : stage.callsLeft ≤ calls) (h : m.advance calls w (.waiting stage, s) = ((.waiting stage', s'), w')) :
    w'.holds (stage'.call m) = true := by
  induction calls generalizing w stage s with
  | zero => exact absurd hc (Nat.not_le.2 (Task.waiting stage).pollsLeft_pos)
  | succ calls ih =>
    cases hw : w.holds (stage.call m) with
    | true =>
      simp only [Manager.advance, hw, if_true, Prod.mk.injEq, Progress.waiting.injEq] at h
      obtain ⟨⟨rfl, -⟩, rfl⟩ := h
      exact hw
    | false =>
      rw [advance_waiting hw] at h
      cases hr : stage.resume m (w.answer (stage.call m)).1 s with
      | mk p s₁ =>
        rw [hr] at h
        cases p with
        | finished o =>
          rw [advance_finished] at h
          cases h
        | waiting stage₁ =>
          have hlt := run?_pollsLeft (m := m) (f := .answered stage (w.answer (stage.call m)).1) (congrArg some hr)
          have hlt : stage₁.callsLeft < stage.callsLeft := hlt
          exact ih (by omega) h

/-- A session leaves no task waiting at a call whose gate is open. -/
theorem poll_holds {t : Task} {w w' : World σ} {stage : Stage} {s s' : Scene}
    (h : m.poll t w s = ((.waiting stage, s'), w')) : w'.holds (stage.call m) = true := by
  unfold Manager.poll at h
  split at h
  · cases h
  · exact advance_holds (Nat.le_refl _) h

/-! ## The moves of a poll -/

/-- A future has come to what a run has left, and the store is this; what has happened meanwhile ends with the
resolution, if the future has resolved. -/
structure Came (s s' : State m σ) (i : Nat) (run : Run) (store : σ) : Prop where
  state : ∃ h, s' = { ({ s with store } : State m σ).settle i run with history := h }
  resolved : ∀ o, run.1 = .finished o → ∃ h, s'.history = .resolved i o :: h

namespace Came

variable {s s' s'' : State m σ} {i : Nat}

/-- A future that waits has come to where it is. -/
theorem refl {stage : Stage} (hf : s.futures i = some ⟨.unanswered (.waiting stage), false⟩) (now : Instant) :
    Came s s i (.waiting stage, s.scene now) s.store := by
  refine ⟨⟨s.history, ?_⟩, fun o h => by cases h⟩
  have hu : Function.update s.futures i (some ⟨.unanswered (.waiting stage), false⟩) = s.futures := by
    rw [← hf, Function.update_eq_self]
  simp [State.settle, State.scene, hu]

/-- What a run has left is overtaken by what the next one leaves. -/
theorem trans {run run' : Run} {store store' : σ} (h : Came s s' i run store) (h' : Came s' s'' i run' store') :
    Came s s'' i run' store' := by
  obtain ⟨⟨past, rfl⟩, -⟩ := h
  obtain ⟨⟨past', hs⟩, hres⟩ := h'
  refine ⟨⟨past', ?_⟩, hres⟩
  obtain ⟨p, s₁⟩ := run
  obtain ⟨p', s₂⟩ := run'
  rw [hs]
  cases p <;> cases p' <;> simp [State.settle]

/-- A poll that carries a future on brings it to what its run leaves. -/
theorem of_poll {f : Phase m} {run : Run} (now : Instant) (hf : s.futures i = some ⟨f, false⟩)
    (hr : f.run? (s.scene now) = some run) : Came s (s.step b (.poll i now)) i run s.store := by
  have hs : s.step b (.poll i now) =
      ({ s with history := .ran i f.task now :: s.history } : State m σ).settle i run := by
    simp [State.step, hf, State.poll, hr]
  obtain ⟨p, s₁⟩ := run
  rw [hs]
  cases p with
  | waiting stage => exact ⟨⟨_, rfl⟩, fun o h => by cases h⟩
  | finished o =>
    refine ⟨⟨_, rfl⟩, fun o' h => ?_⟩
    cases h
    exact ⟨_, rfl⟩

/-- The call that a future waits for changes nothing else but the store. -/
theorem of_perform {w : Weather} {stage : Stage} {aborted : Bool} {run : Run} {store : σ}
    (h : Came (s.perform b i w stage aborted) s' i run store) : Came s s' i run store := by
  obtain ⟨⟨past, hs⟩, hres⟩ := h
  refine ⟨⟨past, ?_⟩, hres⟩
  obtain ⟨p, s₁⟩ := run
  rw [hs]
  cases p <;> simp [State.settle, State.perform]

/-- A future that waits after a run sees what the run has left. -/
theorem waiting {stage : Stage} {s₁ : Scene} {store : σ} (h : Came s s' i (.waiting stage, s₁) store) :
    s'.futures i = some ⟨.unanswered (.waiting stage), false⟩ ∧ s'.scene s₁.now = s₁ ∧ s'.store = store := by
  obtain ⟨⟨past, rfl⟩, -⟩ := h
  exact ⟨by simp [State.settle], rfl, rfl⟩

end Came

/-- Running a waiting task on, in a session, is an interleaving of its calls and polls. -/
theorem advance_interleaves (calls : Nat) {s : State m σ} {i : Nat} {stage : Stage}
    (hf : s.futures i = some ⟨.unanswered (.waiting stage), false⟩) {w : World σ} (hb : w.backing = b)
    (hs : w.store = s.store) (now : Instant) :
    ∃ moves, (∀ move ∈ moves, move.future? = some i) ∧
      Came s (s.run b moves) i (m.advance calls w (.waiting stage, s.scene now)).1
        (m.advance calls w (.waiting stage, s.scene now)).2.store := by
  induction calls generalizing s w stage with
  | zero => exact ⟨[], by simp, hs ▸ Came.refl hf now⟩
  | succ calls ih =>
    cases hw : w.holds (stage.call m) with
    | true =>
      simp only [Manager.advance, hw, if_true]
      exact ⟨[], by simp, hs ▸ Came.refl hf now⟩
    | false =>
      rw [advance_waiting hw]
      have ha : (w.weather.world b s.store).answer (stage.call m) = w.answer (stage.call m) := by
        rw [← hb, ← hs, w.answer_weather]
      have hstore : (s.perform b i w.weather stage false).store = (w.perform (stage.call m)).2.store := by
        simp only [State.perform, ha]
        rfl
      have hperform : s.step b (.perform i w.weather) = s.perform b i w.weather stage false := by
        simp [State.step, hf]
      have hf₁ : (s.perform b i w.weather stage false).futures i =
          some ⟨.answered stage (w.answer (stage.call m)).1, false⟩ := by
        simp [State.perform, ha]
      have hround := (Came.of_poll (b := b) now hf₁ rfl).of_perform
      have hscene : (s.perform b i w.weather stage false).scene now = s.scene now := rfl
      rw [hscene, hstore] at hround
      cases hr : stage.resume m (w.answer (stage.call m)).1 (s.scene now) with
      | mk p s₁ =>
        rw [hr] at hround
        have hmoves : ∀ more, s.run b (.perform i w.weather :: .poll i now :: more) =
            ((s.perform b i w.weather stage false).step b (.poll i now)).run b more := by
          intro more
          rw [State.run_cons, State.run_cons, hperform]
        cases p with
        | finished o =>
          rw [advance_finished]
          refine ⟨[.perform i w.weather, .poll i now], by simp [Move.future?], ?_⟩
          rw [hmoves, State.run_nil]
          exact hround
        | waiting stage₁ =>
          have hnow : s₁.now = now := by
            have hkept := run?_now (f := .answered stage (w.answer (stage.call m)).1) (s := s.scene now) rfl
            rw [hr] at hkept
            exact hkept
          obtain ⟨hf₂, hscene₂, hstore₂⟩ := hround.waiting
          rw [hnow] at hscene₂
          obtain ⟨more, hmore, hcame⟩ := ih hf₂ (w := (w.perform (stage.call m)).2) hb hstore₂.symm
          rw [hscene₂] at hcame
          refine ⟨.perform i w.weather :: .poll i now :: more, by simpa [Move.future?] using hmore, ?_⟩
          rw [hmoves]
          exact hround.trans hcame

/-- A session's poll of a future is an interleaving of the future's own calls and polls. It comes to what the run has
left, and the future has resolved exactly if the run has ended. -/
theorem poll_interleaves {s : State m σ} {i : Nat} {t : Task} (hf : s.futures i = some ⟨.unanswered t, false⟩)
    {w : World σ} (hb : w.backing = b) (hs : w.store = s.store) (now : Instant) :
    ∃ moves, (∀ move ∈ moves, move.future? = some i) ∧
      Came s (s.run b moves) i (m.poll t w (s.scene now)).1 (m.poll t w (s.scene now)).2.store := by
  by_cases ht : ∃ stage, t = .waiting stage
  · obtain ⟨stage, rfl⟩ := ht
    exact advance_interleaves _ hf hb hs now
  · have hr : (Phase.unanswered t : Phase m).run? (s.scene now) = some (t.start m (s.scene now)) := by
      cases t with
      | waiting stage => exact absurd ⟨stage, rfl⟩ ht
      | _ => rfl
    have hfirst := Came.of_poll (b := b) now hf hr
    unfold Manager.poll
    cases hp : t.start m (s.scene now) with
    | mk p s₁ =>
      rw [hp] at hfirst
      cases p with
      | finished o => exact ⟨[.poll i now], by simp [Move.future?], hs ▸ hfirst⟩
      | waiting stage =>
        have hnow : s₁.now = now := by
          have hkept := run?_now hr
          rw [hp] at hkept
          exact hkept
        obtain ⟨hf₂, hscene₂, hstore₂⟩ := hfirst.waiting
        rw [hnow] at hscene₂
        obtain ⟨more, hmore, hcame⟩ :=
          advance_interleaves stage.callsLeft hf₂ hb (hs.trans hstore₂.symm) now
        rw [hscene₂] at hcame
        exact ⟨.poll i now :: more, by simpa [Move.future?] using hmore, hfirst.trans hcame⟩

end Interleaving

end ClientAuth
