import ClientAuth.Proofs.Interleaving.Turn

/-!
# What one move can come to

`Change` lists what a move can do to the state. A change by a move about one future leaves every other future as it was
(`Change.frame`), and `run_invariant` carries what every change keeps through all moves. Every invariant is derived from
these.
-/

namespace ClientAuth.Interleaving

variable {m : Manager}

/-! ## Rows of events -/

theorem own_cons (i : Nat) (e : Event) (h : List Event) :
    own i (e :: h) = if e.future = i then e :: own i h else own i h := by
  simp only [own, List.filter_cons, decide_eq_true_eq]

/-- Events about other futures are no events of a future. -/
theorem own_append_of_ne {i : Nat} {es : List Event} (hes : ∀ e ∈ es, e.future ≠ i) (h : List Event) :
    own i (es ++ h) = own i h := by
  unfold own
  rw [List.filter_append, List.filter_eq_nil_iff.2 (by simpa using hes), List.nil_append]

theorem own_cons_self {i : Nat} {e : Event} (he : e.future = i) (h : List Event) : own i (e :: h) = e :: own i h := by
  rw [own_cons, if_pos he]

theorem mem_own {i : Nat} {h : List Event} {e : Event} (he : e.future = i) : e ∈ own i h ↔ e ∈ h := by
  simp [own, he]

theorem before_cons {a e e' : Event} {h : List Event} : Before (a :: h) e e' ↔ Before h e e' ∨ e' = a ∧ e ∈ h := by
  unfold Before
  rw [List.sublist_cons_iff]
  refine or_congr_right ⟨?_, ?_⟩
  · rintro ⟨r, hr, hs⟩
    cases hr
    exact ⟨rfl, List.singleton_sublist.1 hs⟩
  · rintro ⟨rfl, he⟩
    exact ⟨[e], rfl, List.singleton_sublist.2 he⟩

theorem Before.mem {e e' : Event} {h : List Event} (hb : Before h e e') : e ∈ h ∧ e' ∈ h :=
  ⟨hb.subset (by simp), hb.subset (by simp)⟩

theorem Before.mono {e e' : Event} {h h' : List Event} (hb : Before h e e') (hs : h <:+ h') : Before h' e e' :=
  List.Sublist.trans hb hs.sublist

/-- Events that are not the later one of a pair put nothing after the earlier one. -/
theorem before_append {e e' : Event} {es h : List Event} (hes : e' ∉ es) : Before (es ++ h) e e' ↔ Before h e e' := by
  induction es with
  | nil => rfl
  | cons a es ih =>
    rw [List.mem_cons, not_or] at hes
    rw [List.cons_append, before_cons, ih hes.2]
    simp [hes.1]

/-- What has happened was before what is new. -/
theorem before_of_new {e e' : Event} {es h : List Event} (he : e ∈ h) (he' : e' ∈ es) : Before (es ++ h) e e' := by
  obtain ⟨l, r, rfl⟩ := List.append_of_mem he'
  rw [List.append_assoc]
  refine Before.mono ?_ (List.suffix_append l _)
  exact before_cons.2 (Or.inr ⟨rfl, List.mem_append_right r he⟩)

/-- Of two events one was before the other. -/
theorem before_total {e e' : Event} {h : List Event} (he : e ∈ h) (he' : e' ∈ h) (hne : e ≠ e') :
    Before h e e' ∨ Before h e' e := by
  induction h with
  | nil => cases he
  | cons a h ih =>
    simp only [before_cons]
    rcases List.mem_cons.1 he with rfl | hm
    · exact Or.inr (Or.inr ⟨rfl, (List.mem_cons.1 he').resolve_left hne.symm⟩)
    · rcases List.mem_cons.1 he' with rfl | hm'
      · exact Or.inl (Or.inr ⟨rfl, hm⟩)
      · exact (ih hm hm').imp Or.inl Or.inl

/-- The order of two events about a future is that of its own events. -/
theorem before_own {i : Nat} {e e' : Event} {h : List Event} (he : e.future = i) (he' : e'.future = i) :
    Before (own i h) e e' ↔ Before h e e' := by
  constructor
  · exact fun hb => List.Sublist.trans hb List.filter_sublist
  · intro hb
    have hf := List.Sublist.filter (fun e => decide (e.future = i)) hb
    rw [List.filter_eq_self.2 (by simp [he, he'])] at hf
    exact hf

/-! ## Changes -/

namespace State

variable {σ : Type} {b : Backing σ} {s : State m σ}

@[simp] theorem settle_slot (i : Nat) (run : Run) : (s.settle i run).slot = run.2.slot := by
  obtain ⟨p, s'⟩ := run
  cases p <;> rfl

@[simp] theorem settle_store (i : Nat) (run : Run) : (s.settle i run).store = s.store := by
  obtain ⟨p, s'⟩ := run
  cases p <;> rfl

@[simp] theorem settle_made (i : Nat) (run : Run) : (s.settle i run).made = s.made := by
  obtain ⟨p, s'⟩ := run
  cases p <;> rfl

theorem perform_history (i : Nat) (w : Weather) (stage : Stage) (aborted : Bool) :
    (s.perform b i w stage aborted).history =
      .performed i (stage.call m) ((w.world b s.store).answer (stage.call m)).1 :: s.history := rfl

/-- What a move does to the state. -/
inductive Change (b : Backing σ) (s : State m σ) : Move → State m σ → Prop where
  | still (move : Move) : Change b s move s
  | begins {p : Enrollment.Params} (hp : p.problem? = none) (hf : s.slot.inFlight = none) :
      Change b s (.obtain p)
        ({ s with slot := ⟨none, some (s.slot.generation + 1), s.slot.generation + 1⟩ }.add
          (.exchange ⟨s.slot.generation + 1, p⟩))
  | refuses {p : Enrollment.Params} {e : AuthError}
      (he : (∃ problem, p.problem? = some problem ∧ e = .invalidArgument problem) ∨
        p.problem? = none ∧ s.slot.inFlight.isSome ∧ e = .busy) :
      Change b s (.obtain p) (s.add (.refused e))
  | asksClear : Change b s .clear (s.add .clear)
  | asksRestore : Change b s .restore (s.add .restore)
  | performs {i : Nat} {w : Weather} {stage : Stage} {aborted : Bool}
      (hf : s.futures i = some ⟨.unanswered (.waiting stage), aborted⟩) :
      Change b s (.perform i w) (s.perform b i w stage aborted)
  | aborts {i : Nat} {f : Future m} (hf : s.futures i = some f) (ho : f.phase.task.isObtain = true) :
      Change b s (.abort i) { s with futures := Function.update s.futures i (some { f with aborted := true }) }
  | drops {i : Nat} {f : Future m} (hf : s.futures i = some f) : Change b s (.drop i) (s.abandon i f.phase.task)
  | cutsOff {i : Nat} {now : Instant} {f : Future m} (hf : s.futures i = some f) (ha : f.aborted = true) :
      Change b s (.poll i now)
        { s.abandon i f.phase.task with history := .resolved i (.error .cancelled) :: .abandoned i :: s.history }
  | polls {i : Nat} {now : Instant} {f : Future m} {run : Run} (hf : s.futures i = some f) (ha : f.aborted = false)
      (hr : f.phase.run? (s.scene now) = some run) :
      Change b s (.poll i now) ({ s with history := .ran i f.phase.task now :: s.history }.settle i run)

/-- A call of obtain is refused and leaves the slot alone, or begins an exchange with a new ticket. -/
theorem begin_cases (p : Enrollment.Params) (slot : Slot) :
    (∃ e, Exchange.begin p slot = (.error e, slot) ∧
      ((∃ problem, p.problem? = some problem ∧ e = .invalidArgument problem) ∨
        p.problem? = none ∧ slot.inFlight.isSome ∧ e = .busy)) ∨
    (p.problem? = none ∧ slot.inFlight = none ∧ Exchange.begin p slot =
      (.ok ⟨slot.generation + 1, p⟩, ⟨none, some (slot.generation + 1), slot.generation + 1⟩)) := by
  unfold Exchange.begin
  cases hp : p.problem? with
  | some problem => exact Or.inl ⟨_, rfl, Or.inl ⟨problem, rfl, rfl⟩⟩
  | none =>
    unfold Slot.start?
    cases hf : slot.inFlight with
    | some t => exact Or.inl ⟨.busy, rfl, Or.inr ⟨rfl, rfl, rfl⟩⟩
    | none => exact Or.inr ⟨rfl, rfl, rfl⟩

/-- A call of obtain with parameters that can be used begins an exchange while no guard is held. -/
theorem step_obtain_of_idle {p : Enrollment.Params} (hp : p.problem? = none) (hf : s.slot.inFlight = none) :
    s.step b (.obtain p) =
      { s with slot := ⟨none, some (s.slot.generation + 1), s.slot.generation + 1⟩ }.add
        (.exchange ⟨s.slot.generation + 1, p⟩) := by
  have hb : Exchange.begin p s.slot =
      (.ok ⟨s.slot.generation + 1, p⟩, ⟨none, some (s.slot.generation + 1), s.slot.generation + 1⟩) := by
    simp [Exchange.begin, hp, Slot.start?, hf]
  simp only [step, hb, Task.ofBegun]

/-- Every move is one of the changes. -/
theorem step_change (b : Backing σ) (s : State m σ) (move : Move) : Change b s move (s.step b move) := by
  cases move with
  | obtain p =>
    rcases begin_cases p s.slot with ⟨e, hb, he⟩ | ⟨hp, hf, hb⟩
    · simp only [step, hb]
      exact Change.refuses he
    · simp only [step, hb]
      exact Change.begins hp hf
  | clear => exact Change.asksClear
  | restore => exact Change.asksRestore
  | poll i now =>
    cases hf : s.futures i with
    | none =>
      simp only [step, hf]
      exact Change.still _
    | some f =>
      simp only [step, hf, poll]
      cases ha : f.aborted with
      | true => exact Change.cutsOff hf ha
      | false =>
        cases hr : f.phase.run? (s.scene now) with
        | none => exact Change.still _
        | some run => exact Change.polls hf ha hr
  | perform i w =>
    cases hf : s.futures i with
    | none =>
      simp only [step, hf]
      exact Change.still _
    | some f =>
      obtain ⟨phase, aborted⟩ := f
      cases phase with
      | answered stage a =>
        simp only [step, hf]
        exact Change.still _
      | unanswered t =>
        cases t with
        | waiting stage =>
          simp only [step, hf]
          exact Change.performs hf
        | refused e =>
          simp only [step, hf]
          exact Change.still _
        | exchange x =>
          simp only [step, hf]
          exact Change.still _
        | clear =>
          simp only [step, hf]
          exact Change.still _
        | restore =>
          simp only [step, hf]
          exact Change.still _
  | abort i =>
    cases hf : s.futures i with
    | none =>
      simp only [step, hf]
      exact Change.still _
    | some f =>
      simp only [step, hf]
      split
      · rename_i ho
        exact Change.aborts hf ho
      · exact Change.still _
  | drop i =>
    cases hf : s.futures i with
    | none =>
      simp only [step, hf]
      exact Change.still _
    | some f =>
      simp only [step, hf]
      exact Change.drops hf

theorem settle_futures (i : Nat) (run : Run) :
    ∃ f, (s.settle i run).futures = Function.update s.futures i f := by
  obtain ⟨p, s'⟩ := run
  cases p <;> exact ⟨_, rfl⟩

/-- A poll that carries a task on adds an event of its own, and the resolution if the task has ended. -/
theorem ran_history (s : State m σ) (i : Nat) (t : Task) (now : Instant) (run : Run) :
    ∃ es, (({ s with history := .ran i t now :: s.history } : State m σ).settle i run).history =
      es ++ .ran i t now :: s.history ∧ ∀ e ∈ es, ∃ o, e = .resolved i o := by
  obtain ⟨p, s'⟩ := run
  cases p with
  | waiting stage => exact ⟨[], rfl, by simp⟩
  | finished o => exact ⟨[.resolved i o], rfl, by simp⟩

theorem mem_ran_history {i : Nat} {t : Task} {now : Instant} {run : Run} {e : Event} (he : ∀ j o, e ≠ .resolved j o) :
    e ∈ (({ s with history := .ran i t now :: s.history } : State m σ).settle i run).history ↔
      e = .ran i t now ∨ e ∈ s.history := by
  obtain ⟨es, hh, hes⟩ := ran_history s i t now run
  rw [hh, List.mem_append, List.mem_cons, or_iff_right]
  intro hm
  obtain ⟨o, rfl⟩ := hes e hm
  exact he i o rfl

/-- A change by a move about another future leaves a future as it was, and adds nothing to what has happened to it. -/
theorem Change.frame {s' : State m σ} {move : Move} (h : Change b s move s') {i : Nat} (hi : i < s.made)
    (hne : move.future? ≠ some i) : s'.futures i = s.futures i ∧ own i s'.history = own i s.history := by
  have hmade : i ≠ s.made := Nat.ne_of_lt hi
  have hmade' : s.made ≠ i := fun h => hmade h.symm
  cases h with
  | still => exact ⟨rfl, rfl⟩
  | begins _ _ => simp [add, own, Event.future, hmade, hmade']
  | refuses _ => simp [add, own, Event.future, hmade, hmade']
  | asksClear => simp [add, own, Event.future, hmade, hmade']
  | asksRestore => simp [add, own, Event.future, hmade, hmade']
  | @performs j w stage aborted hf =>
    have hj : j ≠ i := fun h => hne (congrArg some h)
    simp [perform, own, Event.future, hj, hj.symm]
  | @aborts j f _ _ =>
    have hj : j ≠ i := fun h => hne (congrArg some h)
    simp [hj.symm]
  | @drops j f _ =>
    have hj : j ≠ i := fun h => hne (congrArg some h)
    simp [abandon, own, Event.future, hj, hj.symm]
  | @cutsOff j now f _ _ =>
    have hj : j ≠ i := fun h => hne (congrArg some h)
    simp [abandon, own, Event.future, hj, hj.symm]
  | @polls j now f run _ _ _ =>
    have hj : j ≠ i := fun h => hne (congrArg some h)
    obtain ⟨g, hg⟩ := settle_futures (s := { s with history := .ran j f.phase.task now :: s.history }) j run
    refine ⟨by rw [hg]; simp [hj.symm], ?_⟩
    obtain ⟨es, he, hes⟩ := ran_history s j f.phase.task now run
    have hother : ∀ e ∈ es, e.future ≠ i := by
      intro e hm
      obtain ⟨o, rfl⟩ := hes e hm
      exact hj
    rw [he, own_append_of_ne hother]
    simp [own_cons, Event.future, hj]

/-- A change by a move about another future adds no event about a future. -/
theorem Change.mem_history {s' : State m σ} {move : Move} (h : Change b s move s') {i : Nat} (hi : i < s.made)
    (hne : move.future? ≠ some i) {e : Event} (he : e.future = i) : e ∈ s'.history ↔ e ∈ s.history := by
  rw [← mem_own he, (h.frame hi hne).2, mem_own he]

/-- A change makes one future or none. -/
theorem Change.made_cases {s' : State m σ} {move : Move} (h : Change b s move s') :
    s'.made = s.made ∨ move.future? = none ∧ ∃ t slot, (∀ stage, t ≠ .waiting stage) ∧ s' = { s with slot }.add t := by
  cases h with
  | begins _ _ => exact Or.inr ⟨rfl, _, _, by simp, rfl⟩
  | refuses _ => exact Or.inr ⟨rfl, _, s.slot, by simp, rfl⟩
  | asksClear => exact Or.inr ⟨rfl, _, s.slot, by simp, rfl⟩
  | asksRestore => exact Or.inr ⟨rfl, _, s.slot, by simp, rfl⟩
  | still => exact Or.inl rfl
  | performs _ => exact Or.inl rfl
  | aborts _ _ => exact Or.inl rfl
  | drops _ => exact Or.inl rfl
  | cutsOff _ _ => exact Or.inl rfl
  | polls _ _ _ => exact Or.inl (settle_made _ _)

/-- A move about a future that is gone changes nothing. -/
theorem Change.eq_of_gone {s' : State m σ} {move : Move} (h : Change b s move s') {i : Nat}
    (hi : move.future? = some i) (hg : s.futures i = none) : s' = s := by
  have hlive : ∀ f, s.futures i ≠ some f := fun f hf => by cases hg.symm.trans hf
  cases h with
  | still => rfl
  | begins _ _ => cases hi
  | refuses _ => cases hi
  | asksClear => cases hi
  | asksRestore => cases hi
  | performs hf =>
    cases hi
    exact absurd hf (hlive _)
  | aborts hf _ =>
    cases hi
    exact absurd hf (hlive _)
  | drops hf =>
    cases hi
    exact absurd hf (hlive _)
  | cutsOff hf _ =>
    cases hi
    exact absurd hf (hlive _)
  | polls hf _ _ =>
    cases hi
    exact absurd hf (hlive _)

/-- A move about a future leaves the slot alone, drops the future, or carries it on. -/
theorem Change.slot_cases {s' : State m σ} {move : Move} (h : Change b s move s') {i : Nat}
    (hi : move.future? = some i) : s'.slot = s.slot ∨
      (∃ f, s.futures i = some f ∧ s'.slot = f.phase.task.drop s.slot) ∨
      ∃ f now run, s.futures i = some f ∧ f.phase.run? (s.scene now) = some run ∧ s'.slot = run.2.slot := by
  cases h with
  | begins _ _ => cases hi
  | still => exact Or.inl rfl
  | refuses _ => exact Or.inl rfl
  | asksClear => exact Or.inl rfl
  | asksRestore => exact Or.inl rfl
  | performs _ => exact Or.inl rfl
  | aborts _ _ => exact Or.inl rfl
  | drops hf =>
    cases hi
    exact Or.inr (Or.inl ⟨_, hf, rfl⟩)
  | cutsOff hf _ =>
    cases hi
    exact Or.inr (Or.inl ⟨_, hf, rfl⟩)
  | polls hf _ hr =>
    cases hi
    exact Or.inr (Or.inr ⟨_, _, _, hf, hr, settle_slot _ _⟩)

/-- A resolution that is the newest event was so before, or it cut a future off, or a poll has carried a task to its
end. -/
theorem Change.resolved_cases {s' : State m σ} {move : Move} (h : Change b s move s') {i : Nat} {o : Outcome}
    {past : List Event} (hh : s'.history = .resolved i o :: past) :
    (s.history = .resolved i o :: past ∧ s'.slot = s.slot) ∨ (.abandoned i ∈ past ∧ o = .error .cancelled) ∨
      ∃ f now s₁, s.futures i = some f ∧ f.phase.run? (s.scene now) = some (.finished o, s₁) ∧
        past = .ran i f.phase.task now :: s.history ∧ s'.slot = s₁.slot := by
  cases h with
  | still => exact Or.inl ⟨hh, rfl⟩
  | begins _ _ => cases hh
  | refuses _ => cases hh
  | asksClear => cases hh
  | asksRestore => cases hh
  | performs _ => cases hh
  | aborts _ _ => exact Or.inl ⟨hh, rfl⟩
  | drops _ => cases hh
  | cutsOff _ _ =>
    cases hh
    exact Or.inr (Or.inl ⟨List.mem_cons_self, rfl⟩)
  | @polls j now f run hf _ hr =>
    obtain ⟨p, s₁⟩ := run
    cases p with
    | waiting stage => cases hh
    | finished o' =>
      cases hh
      exact Or.inr (Or.inr ⟨f, now, s₁, hf, hr, rfl, rfl⟩)

/-- A change adds the making of a new future, or events about a live one. -/
theorem Change.events {s' : State m σ} {move : Move} (h : Change b s move s') : ∃ es, s'.history = es ++ s.history ∧
    ((s'.made = s.made + 1 ∧ ∃ t, es = [.called s.made t]) ∨
      (s'.made = s.made ∧ ∀ e ∈ es, (∀ i t, e ≠ .called i t) ∧ ∃ f, s.futures e.future = some f)) := by
  cases h with
  | begins _ _ => exact ⟨_, List.singleton_append.symm, Or.inl ⟨rfl, _, rfl⟩⟩
  | refuses _ => exact ⟨_, List.singleton_append.symm, Or.inl ⟨rfl, _, rfl⟩⟩
  | asksClear => exact ⟨_, List.singleton_append.symm, Or.inl ⟨rfl, _, rfl⟩⟩
  | asksRestore => exact ⟨_, List.singleton_append.symm, Or.inl ⟨rfl, _, rfl⟩⟩
  | still => exact ⟨[], rfl, Or.inr ⟨rfl, by simp⟩⟩
  | aborts _ _ => exact ⟨[], rfl, Or.inr ⟨rfl, by simp⟩⟩
  | performs hf => exact ⟨_, List.singleton_append.symm, Or.inr ⟨rfl, by simp [Event.future, hf]⟩⟩
  | drops hf => exact ⟨_, List.singleton_append.symm, Or.inr ⟨rfl, by simp [Event.future, hf]⟩⟩
  | @cutsOff i now f hf _ =>
    exact ⟨[.resolved i (.error .cancelled), .abandoned i], rfl, Or.inr ⟨rfl, by simp [Event.future, hf]⟩⟩
  | @polls i now f run hf _ _ =>
    obtain ⟨es, he, hes⟩ := ran_history s i f.phase.task now run
    refine ⟨es ++ [.ran i f.phase.task now], by simp [he], Or.inr ⟨settle_made _ _, fun e hm => ?_⟩⟩
    rw [List.mem_append, List.mem_singleton] at hm
    rcases hm with hm | rfl
    · obtain ⟨o, rfl⟩ := hes e hm
      exact ⟨by simp, f, hf⟩
    · exact ⟨by simp, f, hf⟩

/-- What has happened stays so. -/
theorem Change.history_suffix {s' : State m σ} {move : Move} (h : Change b s move s') : s.history <:+ s'.history := by
  obtain ⟨es, he, -⟩ := h.events
  exact ⟨es, he.symm⟩

@[simp] theorem run_nil : s.run b [] = s := rfl

@[simp] theorem run_cons (move : Move) (moves : List Move) :
    s.run b (move :: moves) = (s.step b move).run b moves := rfl

theorem run_append (moves more : List Move) : s.run b (moves ++ more) = (s.run b moves).run b more :=
  List.foldl_append

/-- What holds at first and is kept by every move holds after any number of them. -/
theorem run_invariant {P : State m σ → Prop} (hstep : ∀ s move, P s → P (s.step b move)) (moves : List Move)
    (h : P s) : P (s.run b moves) := by
  induction moves generalizing s with
  | nil => exact h
  | cons move moves ih => exact ih (hstep s move h)

/-- What holds of a new manager and is kept by every further move holds in every interleaving. What is known of all
interleavings may be used for a move. -/
theorem new_run_induction {P : State m σ → Prop} {store : σ} {nonces : Nonces} (hnew : P (new store nonces))
    (hstep : ∀ moves move, P ((new store nonces).run b moves) → P (((new store nonces).run b moves).step b move))
    (moves : List Move) : P ((new store nonces).run b moves) := by
  induction moves using List.reverseRecOn with
  | nil => exact hnew
  | append_singleton moves move ih =>
    rw [run_append]
    exact hstep moves move ih

/-- What has happened stays so, whatever is done next. -/
theorem run_history_suffix (b : Backing σ) (s : State m σ) (moves : List Move) :
    s.history <:+ (s.run b moves).history :=
  run_invariant (P := fun s' => s.history <:+ s'.history)
    (fun s' move h => h.trans (s'.step_change b move).history_suffix) moves (List.suffix_refl _)

end State

end ClientAuth.Interleaving
