import ClientAuth.Proofs.Interleaving.Guard
import ClientAuth.Session.Basic

/-!
# Futures that are driven to their end

A round performs the call that a future waits for, and polls the future. A poll that leaves it waiting leaves it closer
to its end (`run?_pollsLeft`), so every future resolves within six rounds, whatever the service and the store answer and
whatever the other futures have done.
-/

namespace ClientAuth

/-- How many polls a task takes at most, each after its call was performed. -/
def Task.pollsLeft : Task → Nat
  | exchange _ => 6
  | restore => 3
  | clear => 2
  | refused _ => 1
  | waiting stage => stage.callsLeft

theorem Task.pollsLeft_pos (t : Task) : 0 < t.pollsLeft := by
  cases t with
  | waiting stage => cases stage <;> simp [pollsLeft, Stage.callsLeft]
  | _ => simp [pollsLeft]

theorem Task.pollsLeft_le (t : Task) : t.pollsLeft ≤ 6 := by
  cases t with
  | waiting stage => cases stage <;> simp [pollsLeft, Stage.callsLeft]
  | _ => simp [pollsLeft]

namespace Interleaving

variable {m : Manager} {σ : Type} {b : Backing σ}

/-- Rounds of driving a future: its call takes effect in some weather, and it is polled at some time. -/
def drive (i : Nat) (rounds : List (Weather × Instant)) : List Move :=
  rounds.flatMap fun r => [.perform i r.1, .poll i r.2]

/-- What can make an exchange give up comes before its last poll. -/
theorem Cause.pollsLeft {x : Exchange} {s : Scene} {f : Phase m} {e : AuthError} (h : Cause m x s f e) :
    1 < f.task.pollsLeft := by
  cases h <;> simp [Phase.task, Task.pollsLeft, Stage.callsLeft]

/-- A poll that leaves a future waiting leaves it closer to its end. -/
theorem run?_pollsLeft {f : Phase m} {stage : Stage} {s s' : Scene} (hr : f.run? s = some (.waiting stage, s')) :
    stage.callsLeft < f.task.pollsLeft := by
  cases hx : f.task.exchange? with
  | some x =>
    cases run?_turn hx hr with
    | givesUp _ hf _ => exact hf.pollsLeft
    | removes _ => simp [Phase.task, Task.pollsLeft, Stage.callsLeft]
    | starts _ => simp [Phase.task, Task.pollsLeft, Stage.callsLeft]
    | removed a => simp [Phase.task, Task.pollsLeft, Stage.callsLeft]
    | asks nonce => simp [Phase.task, Task.pollsLeft, Stage.callsLeft]
    | seals _ _ _ => simp [Phase.task, Task.pollsLeft, Stage.callsLeft]
  | none => cases run?_sideTurn hx hr <;> simp [Phase.task, Task.pollsLeft, Stage.callsLeft]

/-- Once the call that it waits for was performed, a live future can be polled. -/
theorem ready_of_perform {s : State m σ} {i : Nat} {f : Future m} (hf : s.futures i = some f) (w : Weather) :
    ∃ f', (s.step b (.perform i w)).futures i = some f' ∧ f'.phase.task = f.phase.task ∧
      ∀ scene, ∃ run, f'.phase.run? scene = some run := by
  obtain ⟨phase, aborted⟩ := f
  cases phase with
  | answered stage a =>
    simp only [State.step, hf]
    exact ⟨_, rfl, rfl, fun scene => ⟨_, rfl⟩⟩
  | unanswered t =>
    cases t with
    | waiting stage =>
      simp only [State.step, hf, State.perform, Function.update_self]
      exact ⟨_, rfl, rfl, fun scene => ⟨_, rfl⟩⟩
    | _ =>
      simp only [State.step, hf]
      exact ⟨_, rfl, rfl, fun scene => ⟨_, rfl⟩⟩

/-- A future that can be polled resolves by a poll or comes closer to its end. -/
theorem resolved_or_closer {s : State m σ} {i : Nat} {f : Future m} (hf : s.futures i = some f)
    (hready : ∀ scene, ∃ run, f.phase.run? scene = some run) (now : Instant) :
    (∃ o, .resolved i o ∈ (s.step b (.poll i now)).history) ∨
      ∃ f', (s.step b (.poll i now)).futures i = some f' ∧ f'.phase.task.pollsLeft < f.phase.task.pollsLeft := by
  simp only [State.step, hf, State.poll]
  cases ha : f.aborted with
  | true => exact Or.inl ⟨.error .cancelled, List.mem_cons_self⟩
  | false =>
    obtain ⟨⟨p, s₁⟩, hr⟩ := hready (s.scene now)
    simp only [hr]
    cases p with
    | finished o => exact Or.inl ⟨o, List.mem_cons_self⟩
    | waiting stage =>
      refine Or.inr ⟨⟨.unanswered (.waiting stage), false⟩, ?_, run?_pollsLeft hr⟩
      simp [State.settle]

/-- A live future resolves within as many rounds as it takes polls. -/
theorem resolved_of_driven {s : State m σ} {i : Nat} {f : Future m} (hf : s.futures i = some f)
    {rounds : List (Weather × Instant)} (hn : f.phase.task.pollsLeft ≤ rounds.length) :
    ∃ o, .resolved i o ∈ (s.run b (drive i rounds)).history := by
  induction rounds generalizing s f with
  | nil => exact absurd hn (Nat.not_le.2 f.phase.task.pollsLeft_pos)
  | cons r rounds ih =>
    obtain ⟨w, now⟩ := r
    obtain ⟨f₁, hf₁, ht, hready⟩ := ready_of_perform (b := b) hf w
    rcases resolved_or_closer (b := b) hf₁ hready now with ⟨o, ho⟩ | ⟨f₂, hf₂, hlt⟩
    · have hkept := State.run_history_suffix b ((s.step b (.perform i w)).step b (.poll i now)) (drive i rounds)
      exact ⟨o, hkept.subset ho⟩
    · refine ih hf₂ ?_
      rw [ht] at hlt
      simp only [List.length_cons] at hn
      omega

end Interleaving

end ClientAuth
