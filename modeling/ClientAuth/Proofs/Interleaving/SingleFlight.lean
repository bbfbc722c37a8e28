import ClientAuth.Proofs.Interleaving.Course

/-!
# Single flight

One exchange at a time: at most one guard is held, and only its holder asks the service for anything. A call of obtain
is refused exactly while the guard is held, and the guard is held exactly while the exchange that took it is neither
resolved nor dropped, so no end of an exchange keeps the next one out.
-/

namespace ClientAuth.Interleaving

open Enrollment (Params)

variable {m : Manager} {σ : Type} {b : Backing σ}

/-- Whether a future waits for an answer of the service, or for the poll that takes it. -/
def State.asksService (s : State m σ) (i : Nat) : Prop :=
  ∃ f stage, s.futures i = some f ∧ f.phase.task = .waiting stage ∧
    ((stage.call m).gate = .nonce ∨ (stage.call m).gate = .enroll)

/-- Only an exchange asks the service. -/
theorem exchange?_of_asksService {s : State m σ} {i : Nat} (h : s.asksService i) : ∃ x, s.exchange? i = some x := by
  obtain ⟨f, stage, hf, ht, hg⟩ := h
  rw [State.exchange?_of_future hf, ht]
  cases stage with
  | removingOld x => exact ⟨x, rfl⟩
  | fetchingNonce x => exact ⟨x, rfl⟩
  | enrolling x request => exact ⟨x, rfl⟩
  | saving x c blob => exact ⟨x, rfl⟩
  | cleaningUp x e => exact ⟨x, rfl⟩
  | removing => simp [Stage.call, Call.gate] at hg
  | loading g => simp [Stage.call, Call.gate] at hg
  | discarding e => simp [Stage.call, Call.gate] at hg

/-- A call of obtain that was refused ends with its failure. -/
theorem Finish.eq_of_refused {i : Nat} {e : AuthError} {o : Outcome} {es : List Event} (hf : Finish m i o es)
    (hc : .called i (.refused e) ∈ es) : o = .error e := by
  obtain ⟨f, es', s, s', rfl, hcourse, hr⟩ := hf
  obtain rfl := hcourse.eq_of_refused (e := e) (by simpa using hc)
  cases hr
  rfl

/-- A call of obtain that was refused comes to nothing but its failure, unless it is dropped. -/
theorem Traced.eq_of_refused {s : State m σ} (t : Traced s) {i : Nat} {e : AuthError} {o : Outcome}
    (hc : .called i (.refused e) ∈ s.history) (ho : .resolved i o ∈ s.history) (hn : .abandoned i ∉ s.history) :
    o = .error e := by
  have hf : Finish m i o (own i s.history) := (t.resolved i o ho).resolve_right fun h => hn h.1
  exact hf.eq_of_refused ((mem_own rfl).2 hc)

namespace Guarded

variable {s : State m σ}

/-- The ticket of the slot is that of the one guard. -/
theorem inFlight_iff (g : Guarded s) (t : Nat) : s.slot.inFlight = some t ↔ ∃ i, s.guard? i = some t := by
  constructor
  · intro ht
    obtain ⟨i, x, hi, hx⟩ := g.holder t ht
    exact ⟨i, by rw [State.guard?_eq, hi, Option.map_some, hx]⟩
  · rintro ⟨i, hi⟩
    rw [State.guard?_eq] at hi
    obtain ⟨x, hx, rfl⟩ := Option.map_eq_some_iff.1 hi
    exact g.held i x hx

/-- While no future holds a guard, the slot knows of none. -/
theorem inFlight_eq_none (g : Guarded s) (hnone : ∀ i, s.guard? i = none) : s.slot.inFlight = none := by
  refine Option.eq_none_iff_forall_ne_some.2 fun t ht => ?_
  obtain ⟨i, hi⟩ := (g.inFlight_iff t).1 ht
  cases (hnone i).symm.trans hi

/-- The guard is held from when an exchange begins until its future has resolved or was dropped. -/
theorem guard?_isSome_iff (g : Guarded s) (i : Nat) :
    (∃ t, s.guard? i = some t) ↔ (∃ x, .called i (.exchange x) ∈ s.history) ∧ ¬Ended i s.history := by
  rw [← exists_and_right]
  constructor
  · rintro ⟨t, ht⟩
    rw [State.guard?_eq] at ht
    obtain ⟨x, hx, -⟩ := Option.map_eq_some_iff.1 ht
    exact ⟨x, (g.exchange_iff i x).1 hx⟩
  · rintro ⟨x, hx⟩
    exact ⟨x.ticket, by rw [State.guard?_eq, (g.exchange_iff i x).2 hx, Option.map_some]⟩

/-- A call of obtain is refused while the guard is held. -/
theorem obtain_refused (g : Guarded s) {p : Params} (hp : p.problem? = none) {i t : Nat} (hg : s.guard? i = some t) :
    s.step b (.obtain p) = s.add (.refused .busy) := by
  have hf : s.slot.inFlight = some t := (g.inFlight_iff t).2 ⟨i, hg⟩
  have hb : Exchange.begin p s.slot = (.error .busy, s.slot) := by
    simp [Exchange.begin, hp, Slot.start?, hf]
  simp only [State.step, hb, Task.ofBegun]

/-- A call of obtain begins an exchange while no guard is held. -/
theorem obtain_begins (g : Guarded s) {p : Params} (hp : p.problem? = none) (hg : ∀ i, s.guard? i = none) :
    (s.step b (.obtain p)).exchange? s.made = some ⟨s.slot.generation + 1, p⟩ := by
  rw [State.step_obtain_of_idle hp (g.inFlight_eq_none hg), State.exchange?_update (s := s) rfl, if_pos rfl]
  rfl

end Guarded

/-- A dropped future has ended. -/
theorem ended_drop {s : State m σ} {i : Nat} {f : Future m} (hf : s.futures i = some f) :
    Ended i (s.step b (.drop i)).history := by
  simp [State.step, hf, State.abandon, Ended]

/-- An aborted future has ended once it is polled. -/
theorem ended_poll_of_aborted {s : State m σ} {i : Nat} {f : Future m} (hf : s.futures i = some f)
    (ha : f.aborted = true) (now : Instant) : Ended i (s.step b (.poll i now)).history := by
  simp [State.step, hf, State.poll, ha, State.abandon, Ended]

/-- A refused call of obtain resolves when it is first polled. -/
theorem resolved_of_refused (s : State m σ) (e : AuthError) (now : Instant) :
    .resolved s.made (.error e) ∈ ((s.add (.refused e)).step b (.poll s.made now)).history := by
  simp [State.step, State.add, State.poll, Phase.run?, Task.start, State.settle]

/-- Single flight, in every interleaving: at most one guard is held, the slot has its ticket, which is at most the
generation, and no ticket is issued twice. The guard is held from when an exchange begins until its future has resolved
or was dropped, as one is that is polled after it was aborted. So at most one future asks the service, a call of obtain
with parameters that can be used comes to a failure as busy while the guard is held, and begins an exchange while it is
not. -/
theorem single_flight (b : Backing σ) (store : σ) (nonces : Nonces) (moves : List Move) :
    let s : State m σ := (State.new store nonces).run b moves
    (∀ i j t u, s.guard? i = some t → s.guard? j = some u → i = j) ∧
    (∀ t, s.slot.inFlight = some t ↔ ∃ i, s.guard? i = some t) ∧
    (∀ t, s.slot.inFlight = some t → t ≤ s.slot.generation) ∧
    (∀ i j x y, .called i (.exchange x) ∈ s.history → .called j (.exchange y) ∈ s.history →
      x.ticket = y.ticket → i = j) ∧
    (∀ i, (∃ t, s.guard? i = some t) ↔ (∃ x, .called i (.exchange x) ∈ s.history) ∧ ¬Ended i s.history) ∧
    (∀ i f, s.futures i = some f → Ended i (s.step b (.drop i)).history ∧
      (f.aborted = true → ∀ now, Ended i (s.step b (.poll i now)).history)) ∧
    (∀ i j, s.asksService i → s.asksService j → i = j) ∧
    (∀ p i t, p.problem? = none → s.guard? i = some t →
      (∀ now, .resolved s.made (.error .busy) ∈ ((s.step b (.obtain p)).step b (.poll s.made now)).history) ∧
      ∀ more o, .resolved s.made o ∈ ((s.step b (.obtain p)).run b more).history →
        .abandoned s.made ∉ ((s.step b (.obtain p)).run b more).history → o = .error .busy) ∧
    (∀ p, p.problem? = none → (∀ i, s.guard? i = none) →
      ∃ x, x.params = p ∧ (s.step b (.obtain p)).guard? s.made = some x.ticket ∧
        .called s.made (.exchange x) ∈ (s.step b (.obtain p)).history) := by
  intro s
  have g : Guarded s := Guarded.run b store nonces moves
  have hunique : ∀ i j x y, s.exchange? i = some x → s.exchange? j = some y → i = j := fun i j x y => g.unique
  refine ⟨?_, g.inFlight_iff, ?_, g.distinct, g.guard?_isSome_iff, ?_, ?_, ?_, ?_⟩
  · intro i j t u hi hj
    rw [State.guard?_eq] at hi hj
    obtain ⟨x, hx, -⟩ := Option.map_eq_some_iff.1 hi
    obtain ⟨y, hy, -⟩ := Option.map_eq_some_iff.1 hj
    exact g.unique hx hy
  · intro t ht
    obtain ⟨i, x, hi, rfl⟩ := g.holder t ht
    exact g.ticket_le hi
  · exact fun i f hf => ⟨ended_drop hf, fun ha now => ended_poll_of_aborted hf ha now⟩
  · intro i j hi hj
    obtain ⟨x, hx⟩ := exchange?_of_asksService hi
    obtain ⟨y, hy⟩ := exchange?_of_asksService hj
    exact g.unique hx hy
  · intro p i t hp hg
    have hs : s.step b (.obtain p) = s.add (.refused .busy) := g.obtain_refused hp hg
    refine ⟨fun now => ?_, fun more o ho hn => ?_⟩
    · rw [hs]
      exact resolved_of_refused s .busy now
    · have hrun : (s.step b (.obtain p)).run b more = (State.new store nonces).run b (moves ++ .obtain p :: more) :=
        (State.run_append moves (.obtain p :: more)).symm
      have ht := Traced.run (m := m) b store nonces (moves ++ .obtain p :: more)
      rw [← hrun] at ht
      have hc : .called s.made (.refused .busy) ∈ ((s.step b (.obtain p)).run b more).history := by
        refine (State.run_history_suffix b _ more).subset ?_
        rw [hs]
        exact List.mem_cons_self
      exact ht.eq_of_refused hc ho hn
  · intro p hp hg
    have hx := g.obtain_begins (b := b) hp hg
    have g' : Guarded (s.step b (.obtain p)) := g.change (s.step_change b _)
    exact ⟨_, rfl, by rw [State.guard?_eq, hx, Option.map_some], ((g'.exchange_iff _ _).1 hx).1⟩

end ClientAuth.Interleaving
