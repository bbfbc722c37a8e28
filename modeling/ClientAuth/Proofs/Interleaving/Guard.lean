import ClientAuth.Proofs.Interleaving.Change

/-!
# The guard of an exchange

At most one exchange holds the guard of a manager, and the slot knows its ticket. `Kept` ties the futures to the
history, `Guarded` ties the slot to the exchange that holds the guard. Every change keeps both (`Guarded.change`), so
they hold in every interleaving.
-/

namespace ClientAuth.Interleaving

variable {m : Manager} {σ : Type} {b : Backing σ}

/-- A future has resolved or was dropped. -/
def Ended (i : Nat) (h : List Event) : Prop := .abandoned i ∈ h ∨ ∃ o, .resolved i o ∈ h

/-- What has ended stays so. -/
theorem Ended.mono {i : Nat} {h h' : List Event} (he : Ended i h) (hs : h <:+ h') : Ended i h' := by
  rcases he with ha | ⟨o, ho⟩
  · exact Or.inl (hs.subset ha)
  · exact Or.inr ⟨o, hs.subset ho⟩

/-- Nothing in a row of events makes or ends a future. -/
def Quiet (es : List Event) : Prop :=
  ∀ e ∈ es, (∀ i t, e ≠ .called i t) ∧ (∀ i, e ≠ .abandoned i) ∧ ∀ i o, e ≠ .resolved i o

theorem Quiet.called {es : List Event} (hq : Quiet es) {i : Nat} {t : Task} {h : List Event} :
    .called i t ∈ es ++ h ↔ .called i t ∈ h := by
  rw [List.mem_append, or_iff_right]
  intro hc
  exact (hq _ hc).1 i t rfl

theorem Quiet.ended {es : List Event} (hq : Quiet es) {i : Nat} {h : List Event} : Ended i (es ++ h) ↔ Ended i h := by
  simp only [Ended, List.mem_append]
  constructor
  · rintro ((ha | ha) | ⟨o, ho | ho⟩)
    · exact absurd rfl ((hq _ ha).2.1 i)
    · exact Or.inl ha
    · exact absurd rfl ((hq _ ho).2.2 i o)
    · exact Or.inr ⟨o, ho⟩
  · rintro (ha | ⟨o, ho⟩)
    · exact Or.inl (Or.inr ha)
    · exact Or.inr ⟨o, Or.inr ho⟩

namespace State

/-- The exchange that a live future belongs to. -/
def exchange? (s : State m σ) (i : Nat) : Option Exchange := (s.futures i).bind (·.phase.task.exchange?)

theorem guard?_eq (s : State m σ) (i : Nat) : s.guard? i = (s.exchange? i).map (·.ticket) := by
  unfold guard? exchange?
  cases s.futures i with
  | none => rfl
  | some f => exact Task.ticket?_eq _

theorem exchange?_of_future {s : State m σ} {i : Nat} {f : Future m} (hf : s.futures i = some f) :
    s.exchange? i = f.phase.task.exchange? := by
  simp [exchange?, hf]

/-- The exchanges after one future was replaced or removed. -/
theorem exchange?_update {s s' : State m σ} {i : Nat} {f : Option (Future m)}
    (hs : s'.futures = Function.update s.futures i f) (j : Nat) :
    s'.exchange? j = if j = i then f.bind (·.phase.task.exchange?) else s.exchange? j := by
  simp only [exchange?, hs, Function.update_apply]
  split <;> rfl

/-- Replacing a future by one of the same exchange changes no exchange. -/
theorem exchange?_replace {s s' : State m σ} {i : Nat} {f f' : Future m} (hf : s.futures i = some f)
    (hs : s'.futures = Function.update s.futures i (some f'))
    (hx : f'.phase.task.exchange? = f.phase.task.exchange?) (j : Nat) : s'.exchange? j = s.exchange? j := by
  rw [exchange?_update hs]
  split
  · rename_i h
    rw [h, exchange?_of_future hf]
    exact hx
  · rfl

end State

/-! ## Book-keeping -/

/-- The futures agree with the history. -/
structure Kept (s : State m σ) : Prop where
  called_lt : ∀ i t, .called i t ∈ s.history → i < s.made
  ended_lt : ∀ i, Ended i s.history → i < s.made
  live_lt : ∀ i f, s.futures i = some f → i < s.made
  gone : ∀ i, Ended i s.history → s.futures i = none
  /-- An exchange holds its guard from when it begins until its future ends. -/
  exchange_iff : ∀ i x, s.exchange? i = some x ↔ .called i (.exchange x) ∈ s.history ∧ ¬Ended i s.history

namespace Kept

theorem new (store : σ) (nonces : Nonces) : Kept (State.new store nonces : State m σ) := by
  refine ⟨?_, ?_, ?_, ?_, ?_⟩ <;> simp [State.new, Ended, State.exchange?]

/-- A future that is live has not ended. -/
theorem not_ended {s : State m σ} (k : Kept s) {i : Nat} {f : Future m} (hf : s.futures i = some f) :
    ¬Ended i s.history := by
  intro he
  rw [k.gone i he] at hf
  cases hf

/-- A future is made for a task that does not wait. -/
theorem add {s : State m σ} (k : Kept s) {t : Task} (ht : ∀ stage, t ≠ .waiting stage) : Kept (s.add t) := by
  have hended : ∀ i, Ended i (s.add t).history ↔ Ended i s.history := by
    intro i
    simp [Ended, State.add]
  refine ⟨?_, ?_, ?_, ?_, ?_⟩
  · intro i u hc
    simp only [State.add, List.mem_cons, Event.called.injEq] at hc ⊢
    rcases hc with ⟨rfl, -⟩ | hc
    · omega
    · have := k.called_lt i u hc
      omega
  · intro i he
    have := k.ended_lt i ((hended i).1 he)
    simp only [State.add]
    omega
  · intro i f hf
    simp only [State.add, Function.update_apply] at hf ⊢
    split at hf
    · omega
    · have := k.live_lt i f hf
      omega
  · intro i he
    have hi := (hended i).1 he
    have := k.ended_lt i hi
    simp only [State.add, Function.update_apply]
    rw [if_neg (by omega)]
    exact k.gone i hi
  · intro i x
    rw [hended, State.exchange?_update (s := s) rfl]
    split
    · rename_i h
      subst h
      have hnot : ¬Ended s.made s.history := fun he => absurd (k.ended_lt _ he) (by omega)
      have hnew : .called s.made (.exchange x) ∉ s.history := fun hc => absurd (k.called_lt _ _ hc) (by omega)
      simp only [Option.bind_some, Phase.task, State.add, List.mem_cons, Event.called.injEq, true_and, hnew, or_false,
        hnot, not_false_eq_true, and_true]
      cases t with
      | waiting stage => exact absurd rfl (ht stage)
      | exchange y => simp [Task.exchange?, eq_comm]
      | refused e => simp [Task.exchange?]
      | clear => simp [Task.exchange?]
      | restore => simp [Task.exchange?]
    · rename_i h
      rw [k.exchange_iff]
      simp [State.add, h]

/-- A future goes on, with its exchange if it has one. -/
theorem stays {s s' : State m σ} (k : Kept s) {i : Nat} {f f' : Future m} (es : List Event) (hf : s.futures i = some f)
    (hs : s'.futures = Function.update s.futures i (some f')) (hx : f'.phase.task.exchange? = f.phase.task.exchange?)
    (hm : s'.made = s.made) (hh : s'.history = es ++ s.history) (hq : Quiet es) : Kept s' := by
  have hi := k.live_lt i f hf
  refine ⟨?_, ?_, ?_, ?_, ?_⟩
  · intro j t hc
    rw [hh, hq.called] at hc
    rw [hm]
    exact k.called_lt j t hc
  · intro j he
    rw [hh, hq.ended] at he
    rw [hm]
    exact k.ended_lt j he
  · intro j g hg
    rw [hs, Function.update_apply] at hg
    rw [hm]
    split at hg
    · rename_i h
      rw [h]
      exact hi
    · exact k.live_lt j g hg
  · intro j he
    rw [hh, hq.ended] at he
    have hg := k.gone j he
    have hj : j ≠ i := by
      rintro rfl
      rw [hf] at hg
      cases hg
    rw [hs, Function.update_apply, if_neg hj]
    exact hg
  · intro j x
    rw [hh, hq.called, hq.ended, State.exchange?_replace hf hs hx]
    exact k.exchange_iff j x

/-- A future ends. -/
theorem ends {s s' : State m σ} (k : Kept s) {i : Nat} {f : Future m} (es : List Event) (hf : s.futures i = some f)
    (hs : s'.futures = Function.update s.futures i none) (hm : s'.made = s.made) (hh : s'.history = es ++ s.history)
    (hc : ∀ j t, .called j t ∉ es) (he : ∀ j, Ended j es ↔ j = i) : Kept s' := by
  have hi := k.live_lt i f hf
  have hended : ∀ j, Ended j s'.history ↔ j = i ∨ Ended j s.history := by
    intro j
    rw [← he j, hh]
    simp only [Ended, List.mem_append, exists_or]
    exact or_or_or_comm
  have hcalled : ∀ j t, .called j t ∈ s'.history ↔ .called j t ∈ s.history := by
    intro j t
    rw [hh, List.mem_append, or_iff_right (hc j t)]
  refine ⟨?_, ?_, ?_, ?_, ?_⟩
  · intro j t h
    rw [hm]
    exact k.called_lt j t ((hcalled j t).1 h)
  · intro j h
    rw [hm]
    rcases (hended j).1 h with rfl | h
    · exact hi
    · exact k.ended_lt j h
  · intro j g hg
    rw [hs, Function.update_apply] at hg
    rw [hm]
    split at hg
    · cases hg
    · exact k.live_lt j g hg
  · intro j h
    rw [hs, Function.update_apply]
    split
    · rfl
    · rename_i hj
      exact k.gone j (((hended j).1 h).resolve_left hj)
  · intro j x
    rw [State.exchange?_update hs, hcalled, hended]
    split
    · rename_i h
      simp [h]
    · rename_i h
      rw [k.exchange_iff, or_iff_right h]

end Kept

/-- A poll that goes on leaves a quiet event behind. -/
theorem quiet_ran (i : Nat) (t : Task) (now : Instant) : Quiet [.ran i t now] := by
  intro e he
  rw [List.mem_singleton] at he
  subst he
  exact ⟨by simp, by simp, by simp⟩

/-- A call that took effect leaves a quiet event behind. -/
theorem quiet_performed (i : Nat) (c : Call) (a : c.Answer) : Quiet [.performed i c a] := by
  intro e he
  rw [List.mem_singleton] at he
  subst he
  exact ⟨by simp, by simp, by simp⟩

theorem quiet_nil : Quiet [] := fun _ h => by cases h

/-! ## The slot and the guard -/

/-- The slot knows the exchange that holds the guard, and tickets are never issued again. -/
structure Guarded (s : State m σ) : Prop extends Kept s where
  held : ∀ i x, s.exchange? i = some x → s.slot.inFlight = some x.ticket
  holder : ∀ t, s.slot.inFlight = some t → ∃ i x, s.exchange? i = some x ∧ x.ticket = t
  bounded : ∀ i x, .called i (.exchange x) ∈ s.history → x.ticket ≤ s.slot.generation
  distinct : ∀ i j x y, .called i (.exchange x) ∈ s.history → .called j (.exchange y) ∈ s.history →
    x.ticket = y.ticket → i = j
  honest : ∀ i f stage, s.futures i = some f → f.phase.task = .waiting stage → Stage.Honest stage s.slot

namespace Guarded

variable {s s' : State m σ}

theorem new (store : σ) (nonces : Nonces) : Guarded (State.new store nonces : State m σ) := by
  refine ⟨Kept.new store nonces, ?_, ?_, ?_, ?_, ?_⟩ <;> simp [State.new, State.exchange?, Slot.empty]

/-- The store may be changed by others. -/
theorem withStore (g : Guarded s) (store : σ) : Guarded ({ s with store } : State m σ) :=
  { called_lt := g.called_lt, ended_lt := g.ended_lt, live_lt := g.live_lt, gone := g.gone
    exchange_iff := g.exchange_iff, held := g.held, holder := g.holder, bounded := g.bounded, distinct := g.distinct
    honest := g.honest }

/-- At most one exchange is live. -/
theorem unique (g : Guarded s) {i j : Nat} {x y : Exchange} (hi : s.exchange? i = some x)
    (hj : s.exchange? j = some y) : i = j := by
  have ht : some x.ticket = some y.ticket := (g.held i x hi).symm.trans (g.held j y hj)
  exact g.distinct i j x y ((g.exchange_iff i x).1 hi).1 ((g.exchange_iff j y).1 hj).1 (Option.some.inj ht)

/-- No exchange is live while the slot has no ticket. -/
theorem exchange?_eq_none (g : Guarded s) (hf : s.slot.inFlight = none) (i : Nat) : s.exchange? i = none := by
  cases hx : s.exchange? i with
  | none => rfl
  | some x =>
    have := g.held i x hx
    rw [hf] at this
    cases this

/-- The ticket of a live exchange is at most the generation of the slot. -/
theorem ticket_le (g : Guarded s) {i : Nat} {x : Exchange} (hi : s.exchange? i = some x) :
    x.ticket ≤ s.slot.generation :=
  g.bounded i x ((g.exchange_iff i x).1 hi).1

/-- A slot whose generation only grows stays as honest as it was. -/
theorem honest_mono {slot slot' : Slot} {stage : Stage} (h : Stage.Honest stage slot)
    (hb : ∀ x, stage.exchange? = some x → x.ticket ≤ slot.generation) (hg : slot.generation ≤ slot'.generation) :
    Stage.Honest stage slot' := by
  intro x hx
  have hn := h x hx
  have hle := hb x (by rw [hx]; rfl)
  simp only [Slot.isCurrent, beq_eq_false_iff_ne, ne_eq] at hn ⊢
  omega

/-- A change that ends no exchange and begins none keeps the slot guarded, as long as the generation does not fall. -/
theorem stays (g : Guarded s) (k : Kept s') (hf : s'.slot.inFlight = s.slot.inFlight)
    (hg : s.slot.generation ≤ s'.slot.generation) (hx : ∀ i, s'.exchange? i = s.exchange? i)
    (hc : ∀ i x, .called i (.exchange x) ∈ s'.history ↔ .called i (.exchange x) ∈ s.history)
    (hh : ∀ i f stage, s'.futures i = some f → f.phase.task = .waiting stage → Stage.Honest stage s.slot) :
    Guarded s' := by
  refine ⟨k, ?_, ?_, ?_, ?_, ?_⟩
  · intro i x hi
    rw [hf]
    exact g.held i x (hx i ▸ hi)
  · intro t ht
    obtain ⟨i, x, hi, hxt⟩ := g.holder t (hf ▸ ht)
    exact ⟨i, x, (hx i).trans hi, hxt⟩
  · intro i x h
    exact Nat.le_trans (g.bounded i x ((hc i x).1 h)) hg
  · intro i j x y hi hj
    exact g.distinct i j x y ((hc i x).1 hi) ((hc j y).1 hj)
  · intro i f stage hi ht
    refine honest_mono (hh i f stage hi ht) (fun x hs => ?_) hg
    have he : s'.exchange? i = some x := by
      rw [State.exchange?_of_future hi, ht]
      exact hs
    exact g.ticket_le (hx i ▸ he)

/-- The end of the one live exchange releases the guard. -/
theorem ends (g : Guarded s) (k : Kept s') {i : Nat} {x : Exchange} (hi : s.exchange? i = some x)
    (hf : s'.slot.inFlight = none) (hg : s'.slot.generation = s.slot.generation)
    (hx : ∀ j, s'.exchange? j = if j = i then none else s.exchange? j)
    (hc : ∀ j y, .called j (.exchange y) ∈ s'.history ↔ .called j (.exchange y) ∈ s.history) : Guarded s' := by
  have hnone : ∀ j, s'.exchange? j = none := by
    intro j
    rw [hx]
    split
    · rfl
    · rename_i hj
      cases he : s.exchange? j with
      | none => rfl
      | some y => exact absurd (g.unique he hi) hj
  refine ⟨k, ?_, ?_, ?_, ?_, ?_⟩
  · intro j y hj
    rw [hnone] at hj
    cases hj
  · intro t ht
    rw [hf] at ht
    cases ht
  · intro j y h
    rw [hg]
    exact g.bounded j y ((hc j y).1 h)
  · intro j j' y y' h h'
    exact g.distinct j j' y y' ((hc j y).1 h) ((hc j' y').1 h')
  · intro j f stage hj ht z hz
    have he : s'.exchange? j = some z := by
      rw [State.exchange?_of_future hj, ht, hz]
      rfl
    rw [hnone] at he
    cases he

/-- Releasing the guard of the live exchange leaves the slot without a ticket. -/
theorem release_inFlight (g : Guarded s) {i : Nat} {x : Exchange} (hi : s.exchange? i = some x) :
    (s.slot.release x.ticket).inFlight = none := by
  simp [Slot.release, g.held i x hi]

/-- A future is dropped. -/
theorem abandons (g : Guarded s) {i : Nat} {f : Future m} (es : List Event) (hf : s.futures i = some f)
    (hslot : s'.slot = f.phase.task.drop s.slot) (hs : s'.futures = Function.update s.futures i none)
    (hm : s'.made = s.made) (hh : s'.history = es ++ s.history) (hc : ∀ j t, .called j t ∉ es)
    (he : ∀ j, Ended j es ↔ j = i) : Guarded s' := by
  have k : Kept s' := g.toKept.ends es hf hs hm hh hc he
  have hcalled : ∀ j x, .called j (.exchange x) ∈ s'.history ↔ .called j (.exchange x) ∈ s.history := by
    intro j x
    rw [hh, List.mem_append, or_iff_right (hc j _)]
  have hx : ∀ j, s'.exchange? j = if j = i then none else s.exchange? j := State.exchange?_update hs
  have ht : f.phase.task.exchange? = s.exchange? i := (State.exchange?_of_future hf).symm
  cases hi : s.exchange? i with
  | some x =>
    have hd : s'.slot = s.slot.release x.ticket := by
      rw [hslot]
      simp [Task.drop, Task.ticket?_eq, ht, hi]
    refine g.ends k hi ?_ ?_ hx hcalled
    · rw [hd]
      exact g.release_inFlight hi
    · rw [hd, release_generation]
  | none =>
    have hd : s'.slot = s.slot := by
      rw [hslot]
      simp [Task.drop, Task.ticket?_eq, ht, hi]
    refine g.stays k (by rw [hd]) (Nat.le_of_eq (by rw [hd])) (fun j => ?_) hcalled fun j h stage hj hw => ?_
    · rw [hx]
      split
      · rename_i hj
        rw [hj, hi]
      · rfl
    · rw [hs, Function.update_apply] at hj
      split at hj
      · cases hj
      · exact g.honest j h stage hj hw

/-- A future is made that belongs to no exchange. -/
theorem adds (g : Guarded s) {t : Task} (hx : t.exchange? = none) (ht : ∀ stage, t ≠ .waiting stage) :
    Guarded (s.add t) := by
  have hnone : s.exchange? s.made = none := by
    cases he : s.futures s.made with
    | none => simp [State.exchange?, he]
    | some f => exact absurd (g.live_lt _ f he) (by omega)
  refine g.stays (g.toKept.add ht) rfl (Nat.le_refl _) (fun j => ?_) (fun j x => ?_) fun j f stage hj hw => ?_
  · rw [State.exchange?_update (s := s) rfl]
    split
    · rename_i hj
      rw [hj, hnone]
      exact hx
    · rfl
  · simp only [State.add, List.mem_cons, Event.called.injEq, or_iff_right_iff_imp, and_imp]
    rintro - rfl
    cases hx
  · simp only [State.add, Function.update_apply] at hj
    split at hj
    · cases hj
      exact absurd hw (ht stage)
    · exact g.honest j f stage hj hw

/-- An exchange begins. -/
theorem begins (g : Guarded s) (hf : s.slot.inFlight = none) (p : Enrollment.Params) :
    Guarded ({ s with slot := ⟨none, some (s.slot.generation + 1), s.slot.generation + 1⟩ }.add
      (.exchange ⟨s.slot.generation + 1, p⟩)) := by
  have k : Kept { s with slot := ⟨none, some (s.slot.generation + 1), s.slot.generation + 1⟩ } :=
    ⟨g.called_lt, g.ended_lt, g.live_lt, g.gone, g.exchange_iff⟩
  have hx : ∀ j, ({ s with slot := ⟨none, some (s.slot.generation + 1), s.slot.generation + 1⟩ }.add
      (.exchange ⟨s.slot.generation + 1, p⟩)).exchange? j =
        if j = s.made then some ⟨s.slot.generation + 1, p⟩ else none := by
    intro j
    rw [State.exchange?_update (s := s) rfl, g.exchange?_eq_none hf]
    rfl
  have hold : ∀ j y, .called j (.exchange y) ∈ s.history → y.ticket ≤ s.slot.generation := g.bounded
  refine ⟨k.add (fun stage h => by cases h), ?_, ?_, ?_, ?_, ?_⟩
  · intro j x hj
    rw [hx] at hj
    split at hj
    · cases hj
      rfl
    · cases hj
  · intro t ht
    refine ⟨s.made, _, by rw [hx, if_pos rfl], ?_⟩
    exact Option.some.inj ht
  · intro j x h
    simp only [State.add, List.mem_cons, Event.called.injEq, Task.exchange.injEq] at h ⊢
    rcases h with ⟨-, rfl⟩ | h
    · exact Nat.le_refl _
    · have := hold j x h
      omega
  · intro j j' x x' h h' ht
    simp only [State.add, List.mem_cons, Event.called.injEq, Task.exchange.injEq] at h h'
    rcases h with ⟨rfl, rfl⟩ | h <;> rcases h' with ⟨rfl, rfl⟩ | h'
    · rfl
    · have := hold j' x' h'
      simp only at ht
      omega
    · have := hold j x h
      simp only at ht
      omega
    · exact g.distinct j j' x x' h h' ht
  · intro j f stage hj hw z hz
    simp only [State.add, Function.update_apply] at hj
    split at hj
    · cases hj
      cases hw
    · have he : s.exchange? j = some z := by
        rw [State.exchange?_of_future hj, hw, hz]
        rfl
      rw [g.exchange?_eq_none hf] at he
      cases he

/-- A poll leaves a future waiting, and the slot with the guard that it had. -/
theorem waits (g : Guarded s) {i : Nat} {f : Future m} {now : Instant} {stage : Stage} {s₁ : Scene}
    (hf : s.futures i = some f) (hx : stage.exchange? = f.phase.task.exchange?) (hh : Stage.Honest stage s.slot)
    (hslot : s₁.slot.inFlight = s.slot.inFlight) (hg : s.slot.generation ≤ s₁.slot.generation) :
    Guarded ({ s with history := .ran i f.phase.task now :: s.history }.settle i (.waiting stage, s₁)) := by
  have hq := quiet_ran i f.phase.task now
  refine g.stays (g.toKept.stays _ hf rfl hx rfl rfl hq) hslot hg (State.exchange?_replace hf rfl hx)
    (fun j y => hq.called) fun j f' stage' hj hw => ?_
  simp only [State.settle, Function.update_apply] at hj
  split at hj
  · cases hj
    cases hw
    exact hh
  · exact g.honest j f' stage' hj hw

theorem ended_resolved (i : Nat) (o : Outcome) (t : Task) (now : Instant) (j : Nat) :
    Ended j [.resolved i o, .ran i t now] ↔ j = i := by
  simp [Ended]

/-- A poll ends a future without an exchange and leaves the guard as it was. -/
theorem resolves (g : Guarded s) {i : Nat} {f : Future m} {now : Instant} {o : Outcome} {s₁ : Scene}
    (hf : s.futures i = some f) (hx : f.phase.task.exchange? = none)
    (hslot : s₁.slot.inFlight = s.slot.inFlight) (hg : s.slot.generation ≤ s₁.slot.generation) :
    Guarded ({ s with history := .ran i f.phase.task now :: s.history }.settle i (.finished o, s₁)) := by
  have k : Kept ({ s with history := .ran i f.phase.task now :: s.history }.settle i (.finished o, s₁)) :=
    g.toKept.ends [.resolved i o, .ran i f.phase.task now] hf rfl rfl rfl (by simp) (ended_resolved i o _ now)
  refine g.stays k hslot hg (fun j => ?_) (by simp [State.settle]) fun j f' stage' hj hw => ?_
  · rw [State.exchange?_update (s := s) (i := i) (f := none) rfl]
    split
    · rename_i hj
      rw [hj, State.exchange?_of_future hf, hx]
      rfl
    · rfl
  · simp only [State.settle, Function.update_apply] at hj
    split at hj
    · cases hj
    · exact g.honest j f' stage' hj hw

/-- A poll ends an exchange and releases its guard. -/
theorem resolvesExchange (g : Guarded s) {i : Nat} {f : Future m} {x : Exchange} {now : Instant} {o : Outcome}
    {s₁ : Scene} {slot : Slot} (hf : s.futures i = some f) (hx : f.phase.task.exchange? = some x)
    (hslot : s₁.slot = slot.release x.ticket) (hi : slot.inFlight = s.slot.inFlight)
    (hg : slot.generation = s.slot.generation) :
    Guarded ({ s with history := .ran i f.phase.task now :: s.history }.settle i (.finished o, s₁)) := by
  have k : Kept ({ s with history := .ran i f.phase.task now :: s.history }.settle i (.finished o, s₁)) :=
    g.toKept.ends [.resolved i o, .ran i f.phase.task now] hf rfl rfl rfl (by simp) (ended_resolved i o _ now)
  have he : s.exchange? i = some x := by rw [State.exchange?_of_future hf, hx]
  refine g.ends k he ?_ ?_ (State.exchange?_update (s := s) (f := none) rfl) (by simp [State.settle])
  · simp [hslot, Slot.release, hi, g.held i x he]
  · simp [hslot, release_generation, hg]

/-- Every change keeps the slot guarded. -/
theorem change (g : Guarded s) {move : Move} (h : State.Change b s move s') : Guarded s' := by
  cases h with
  | still => exact g
  | begins hp hf => exact g.begins hf _
  | refuses _ => exact g.adds rfl fun _ h => by cases h
  | asksClear => exact g.adds rfl fun _ h => by cases h
  | asksRestore => exact g.adds rfl fun _ h => by cases h
  | @performs i w stage aborted hf =>
    have hq := quiet_performed i (stage.call m) ((w.world b s.store).answer (stage.call m)).1
    refine g.stays (g.toKept.stays _ hf rfl rfl rfl rfl hq) rfl (Nat.le_refl _) (State.exchange?_replace hf rfl rfl)
      (fun j y => hq.called) fun j f' stage' hj hw => ?_
    simp only [State.perform, Function.update_apply] at hj
    split at hj
    · cases hj
      exact g.honest i _ stage' hf hw
    · exact g.honest j f' stage' hj hw
  | @aborts i f hf _ =>
    refine g.stays (g.toKept.stays [] hf rfl rfl rfl rfl quiet_nil) rfl (Nat.le_refl _)
      (State.exchange?_replace hf rfl rfl) (fun j y => Iff.rfl) fun j f' stage' hj hw => ?_
    simp only [Function.update_apply] at hj
    split at hj
    · cases hj
      exact g.honest i f stage' hf hw
    · exact g.honest j f' stage' hj hw
  | @drops i f hf => exact g.abandons [.abandoned i] hf rfl rfl rfl rfl (by simp) (by simp [Ended])
  | @cutsOff i now f hf _ =>
    exact g.abandons [.resolved i (.error .cancelled), .abandoned i] hf rfl rfl rfl rfl (by simp)
      (by simp [Ended])
  | @polls i now f run hf _ hr =>
    have hh : ∀ stage, f.phase.task = .waiting stage → Stage.Honest stage s.slot :=
      fun stage => g.honest i f stage hf
    obtain ⟨p, s₁⟩ := run
    cases hx : f.phase.task.exchange? with
    | some x =>
      have ht := run?_turn hx hr
      cases p with
      | waiting stage =>
        obtain ⟨hy, hs, hslot⟩ := ht.waiting
        exact g.waits hf (hy.trans hx.symm) hs (by rw [hslot]; rfl) (Nat.le_of_eq (by rw [hslot]; rfl))
      | finished o =>
        rcases ht.finished hh with ⟨e, rfl, -, hslot⟩ | ⟨c, rfl, -, -, hslot⟩
        · exact g.resolvesExchange hf hx hslot rfl rfl
        · exact g.resolvesExchange hf hx hslot rfl rfl
    | none =>
      have ht := run?_sideTurn hx hr
      cases p with
      | waiting stage =>
        have hy : stage.exchange? = none := ht.waiting
        refine g.waits hf (hy.trans hx.symm) (fun y h => ?_) ht.inFlight ht.generation_le
        rw [h] at hy
        cases hy
      | finished o => exact g.resolves hf hx ht.inFlight ht.generation_le

/-- The slot is guarded in every interleaving. -/
theorem run (b : Backing σ) (store : σ) (nonces : Nonces) (moves : List Move) :
    Guarded ((State.new store nonces : State m σ).run b moves) :=
  State.run_invariant (fun s move g => g.change (s.step_change b move)) moves (Guarded.new store nonces)

end Guarded

end ClientAuth.Interleaving
