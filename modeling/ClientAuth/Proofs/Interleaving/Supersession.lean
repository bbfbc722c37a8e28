import ClientAuth.Proofs.Interleaving.Course

/-!
# Superseded work

A clear and the begin of an exchange give the slot another generation, and nothing else does. So an exchange is current
exactly while no clear has run since it was called, and a restore that waits for its load is in time exactly while
neither has happened since its first step (`Timely`). Work that is not in time leaves the credential of the slot alone.
-/

namespace ClientAuth.Interleaving

variable {m : Manager} {σ : Type} {b : Backing σ}

/-- The events that give the slot another generation: the first step of a clear, and the begin of an exchange. -/
def Event.Supersedes : Event → Prop
  | ran _ .clear _ | called _ (.exchange _) => True
  | _ => False

theorem Event.supersedes_iff (e : Event) :
    e.Supersedes ↔ (∃ i now, e = .ran i .clear now) ∨ ∃ i x, e = .called i (.exchange x) := by
  cases e with
  | called i t => cases t <;> simp [Event.Supersedes]
  | ran i t now => cases t <;> simp [Event.Supersedes]
  | performed i c a => simp [Event.Supersedes]
  | abandoned i => simp [Event.Supersedes]
  | resolved i o => simp [Event.Supersedes]

/-- The generation of the slot counts the superseding events: a change adds one of these at most, and the generation
grows with it. An exchange begins only while no guard is held, and takes the new generation for its ticket. -/
theorem State.Change.generation {s s' : State m σ} {move : Move} (h : State.Change b s move s') :
    (∃ es, s'.history = es ++ s.history ∧ (∀ e ∈ es, ¬e.Supersedes) ∧ s'.slot.generation = s.slot.generation) ∨
    ∃ es e, s'.history = es ++ e :: s.history ∧ (∀ e' ∈ es, ¬e'.Supersedes) ∧ e.Supersedes ∧
      (∀ i x, e = .called i (.exchange x) → s.slot.inFlight = none ∧ x.ticket = s'.slot.generation) ∧
      s'.slot.generation = s.slot.generation + 1 := by
  cases h with
  | still => exact Or.inl ⟨[], rfl, by simp, rfl⟩
  | begins _ hf => exact Or.inr ⟨[], _, rfl, by simp, trivial, by simp [hf, State.add], rfl⟩
  | refuses _ => exact Or.inl ⟨[_], rfl, by simp [Event.Supersedes], rfl⟩
  | asksClear => exact Or.inl ⟨[_], rfl, by simp [Event.Supersedes], rfl⟩
  | asksRestore => exact Or.inl ⟨[_], rfl, by simp [Event.Supersedes], rfl⟩
  | performs _ => exact Or.inl ⟨[_], rfl, by simp [Event.Supersedes], rfl⟩
  | aborts _ _ => exact Or.inl ⟨[], rfl, by simp, rfl⟩
  | drops _ => exact Or.inl ⟨[_], rfl, by simp [Event.Supersedes], drop_generation _ _⟩
  | cutsOff _ _ => exact Or.inl ⟨[_, _], rfl, by simp [Event.Supersedes], drop_generation _ _⟩
  | @polls i now f run hf _ hr =>
    obtain ⟨es, he, hresolved⟩ := State.ran_history s i f.phase.task now run
    have hes : ∀ e ∈ es, ¬e.Supersedes := by
      intro e hm
      obtain ⟨o, rfl⟩ := hresolved e hm
      simp [Event.Supersedes]
    rw [he, State.settle_slot]
    have hquiet : f.phase.task ≠ .clear → ∀ e ∈ es ++ [.ran i f.phase.task now], ¬e.Supersedes := by
      intro ht e hm
      rw [List.mem_append, List.mem_singleton] at hm
      rcases hm with hm | rfl
      · exact hes e hm
      · simp [Event.supersedes_iff, ht]
    have happ : es ++ .ran i f.phase.task now :: s.history = (es ++ [.ran i f.phase.task now]) ++ s.history := by simp
    cases hx : f.phase.task.exchange? with
    | some x =>
      exact Or.inl ⟨_, happ, hquiet (fun ht => by simp [ht, Task.exchange?] at hx), (run?_turn hx hr).generation⟩
    | none =>
      rcases (run?_sideTurn hx hr).slot with ⟨ht, hs⟩ | ⟨ht, hs⟩ | ⟨blob, c, -, -, hp, hs⟩
      · exact Or.inl ⟨_, happ, hquiet ht, by rw [hs]; rfl⟩
      · exact Or.inr ⟨es, _, rfl, hes, by rw [ht]; trivial, (fun _ _ he => by cases he), by rw [hs]; rfl⟩
      · exact Or.inl ⟨_, happ, hquiet (by simp [hp, Phase.task]), by rw [hs]; rfl⟩

/-- The generation never falls, and while it stays no clear has its first step. -/
theorem State.Change.generation_le {s s' : State m σ} {move : Move} (h : State.Change b s move s') :
    s.slot.generation ≤ s'.slot.generation ∧ (s'.slot.generation = s.slot.generation →
      ∀ k now, .ran k .clear now ∈ s'.history → .ran k .clear now ∈ s.history) := by
  rcases h.generation with ⟨es, hh, hes, hg⟩ | ⟨es, e, hh, hes, he, -, hg⟩
  · refine ⟨Nat.le_of_eq hg.symm, fun _ k now hr => ?_⟩
    rw [hh, List.mem_append] at hr
    exact hr.resolve_left fun hm => hes _ hm trivial
  · exact ⟨by omega, by omega⟩

/-- An exchange is current exactly while no clear has run since it was called, and a load is in time exactly while
nothing has given the slot another generation since the first step of its restore; no guard is held then. -/
structure Timely (s : State m σ) : Prop where
  exchange : ∀ i x, s.exchange? i = some x → (s.slot.isCurrent x.ticket = false ↔
    ∃ j now, Before s.history (.called i (.exchange x)) (.ran j .clear now))
  loading : ∀ i f g, s.futures i = some f → f.phase.task = .waiting (.loading g) → g ≤ s.slot.generation ∧
    (g ≠ s.slot.generation ↔ ∃ now e, e.Supersedes ∧ Before s.history (.ran i .restore now) e) ∧
    (g = s.slot.generation → s.slot.inFlight = none)

namespace Timely

variable {s s' : State m σ}

theorem new (store : σ) (nonces : Nonces) : Timely (State.new store nonces : State m σ) := by
  refine ⟨?_, ?_⟩ <;> simp [State.new, State.exchange?]

/-- An exchange that goes on through a change stays current unless the change is the first step of a clear. -/
theorem change_exchange (g : Guarded s) (t : Timely s) {move : Move} (h : State.Change b s move s') {i : Nat}
    {x : Exchange} (hx : s.exchange? i = some x) : s'.slot.isCurrent x.ticket = false ↔
      ∃ j now, Before s'.history (.called i (.exchange x)) (.ran j .clear now) := by
  have hmark : .called i (.exchange x) ∈ s.history := ((g.exchange_iff i x).1 hx).1
  have hle := g.ticket_le hx
  have ht := t.exchange i x hx
  simp only [Slot.isCurrent, beq_eq_false_iff_ne, ne_eq] at ht ⊢
  rcases h.generation with ⟨es, hh, hes, hg⟩ | ⟨es, e, hh, hes, he, hf, hg⟩
  · rw [hg, ht, hh]
    refine exists_congr fun j => exists_congr fun now => ?_
    rw [before_append fun hm => hes (.ran j .clear now) hm trivial]
  · refine iff_of_true (by omega) ?_
    rcases (Event.supersedes_iff e).1 he with ⟨j, now, rfl⟩ | ⟨j, y, rfl⟩
    · refine ⟨j, now, ?_⟩
      rw [hh, before_append fun hm => hes (.ran j .clear now) hm trivial, before_cons]
      exact Or.inr ⟨rfl, hmark⟩
    · have hnone := g.exchange?_eq_none (hf j y rfl).1 i
      rw [hx] at hnone
      cases hnone

/-- A slot without a guard has none after a change that begins no exchange. -/
theorem inFlight_of_quiet (g : Guarded s) (g' : Guarded s') {es : List Event} (hh : s'.history = es ++ s.history)
    (hes : ∀ e ∈ es, ¬e.Supersedes) (hf : s.slot.inFlight = none) : s'.slot.inFlight = none := by
  cases ht : s'.slot.inFlight with
  | none => rfl
  | some n =>
    obtain ⟨i, x, hx, -⟩ := g'.holder n ht
    obtain ⟨hc, hn⟩ := (g'.exchange_iff i x).1 hx
    have hc' : .called i (.exchange x) ∈ s.history := by
      rw [hh, List.mem_append] at hc
      exact hc.resolve_left fun hm => hes _ hm trivial
    have hn' : ¬Ended i s.history := fun he => hn (he.mono (hh ▸ List.suffix_append es s.history))
    have hnone := g.exchange?_eq_none hf i
    rw [(g.exchange_iff i x).2 ⟨hc', hn'⟩] at hnone
    cases hnone

/-- A load that goes on to be waited for stays in time unless the change gives the slot another generation. -/
theorem change_loading (g : Guarded s) (ht : Traced s) (t : Timely s) {move : Move} (h : State.Change b s move s')
    {i n : Nat} {f : Future m} (hf : s.futures i = some f) (hl : f.phase.task = .waiting (.loading n)) :
    n ≤ s'.slot.generation ∧
      (n ≠ s'.slot.generation ↔ ∃ now e, e.Supersedes ∧ Before s'.history (.ran i .restore now) e) ∧
      (n = s'.slot.generation → s'.slot.inFlight = none) := by
  obtain ⟨hle, hiff, hidle⟩ := t.loading i f n hf hl
  rcases h.generation with ⟨es, hh, hes, hg⟩ | ⟨es, e, hh, hes, he, -, hg⟩
  · refine ⟨hg ▸ hle, ?_, fun hn => inFlight_of_quiet g (g.change h) hh hes (hidle (hn.trans hg))⟩
    rw [hg, hiff, hh]
    refine exists_congr fun now => exists_congr fun e => and_congr_right fun he => ?_
    rw [before_append fun hm => hes e hm he]
  · obtain ⟨now, hr⟩ := (ht.live i f hf).ran_of_loading hl
    refine ⟨by omega, iff_of_true (by omega) ⟨now, e, he, ?_⟩, by omega⟩
    rw [hh, before_append fun hm => hes e hm he, before_cons]
    exact Or.inr ⟨rfl, (mem_own rfl).1 hr⟩

/-- Every change keeps the generation in step with what has superseded what. -/
theorem change (g : Guarded s) (ht : Traced s) (t : Timely s) {move : Move} (h : State.Change b s move s') :
    Timely s' := by
  refine ⟨fun i x hx => ?_, fun i f n hf hl => ?_⟩
  · obtain ⟨hc, hn⟩ := ((g.change h).exchange_iff i x).1 hx
    have hn' : ¬Ended i s.history := fun he => hn (he.mono h.history_suffix)
    by_cases hold : .called i (.exchange x) ∈ s.history
    · exact t.change_exchange g h ((g.exchange_iff i x).2 ⟨hold, hn'⟩)
    rcases h.generation with ⟨es, hh, hes, -⟩ | ⟨es, e, hh, hes, -, hf, -⟩
    · rw [hh, List.mem_append, or_iff_left hold] at hc
      exact absurd trivial (hes _ hc)
    · rw [hh, List.mem_append, List.mem_cons, or_iff_left hold] at hc
      rcases hc with hc | rfl
      · exact absurd trivial (hes _ hc)
      · have htick := (hf i x rfl).2
        refine iff_of_false (by simp [Slot.isCurrent, htick]) ?_
        rintro ⟨j, now, hb⟩
        rw [hh, before_append fun hm => hes (.ran j .clear now) hm trivial, before_cons] at hb
        rcases hb with hb | ⟨hb, -⟩
        · exact hold hb.mem.1
        · cases hb
  · obtain ⟨phase, aborted⟩ := f
    have ha : Arrival b s s' i phase := h.arrival g hf
    cases ha with
    | stays hl' ho => exact t.change_loading g ht h hl' hl
    | made hi hw hs => exact absurd hl (hw _)
    | performed hl' hs => exact t.change_loading g ht h hl' hl
    | @ran f₀ now stage s₁ hl' hr hs =>
      simp only [Phase.task, Task.waiting.injEq] at hl
      subst hl
      obtain ⟨hstart, rfl, hidle, hslot⟩ := run?_loading hr
      have hslot' : s'.slot = s.slot := by
        rw [hs, State.settle_slot, hslot]
        rfl
      have hg : s'.slot.generation = s.slot.generation := by rw [hslot']
      have hown : own i s.history = [.called i .restore] := by
        have hc := ht.live i f₀ hl'
        rw [hstart] at hc
        exact hc.eq_of_start (by simp)
      refine ⟨Nat.le_of_eq hg.symm, iff_of_false (by simp [hg, State.scene]) ?_, fun _ => hslot' ▸ hidle⟩
      rintro ⟨now', e, he, hb⟩
      have hh : s'.history = .ran i f₀.phase.task now :: s.history := by
        rw [hs]
        rfl
      rw [hh, hstart, before_cons] at hb
      rcases hb with hb | ⟨rfl, -⟩
      · have hm : .ran i .restore now' ∈ own i s.history := (mem_own rfl).2 hb.mem.1
        rw [hown] at hm
        simp at hm
      · simp [Event.supersedes_iff, Phase.task] at he

/-- The generation is in step with what has superseded what, in every interleaving. -/
theorem run (b : Backing σ) (store : σ) (nonces : Nonces) (moves : List Move) :
    Timely ((State.new store nonces : State m σ).run b moves) :=
  State.new_run_induction (new store nonces)
    (fun moves _ t => t.change (Guarded.run b store nonces moves) (Traced.run b store nonces moves)
      (State.step_change b _ _)) moves

/-- A current exchange was called after every clear that has had its first step. -/
theorem called_since (g : Guarded s) (t : Timely s) {i k : Nat} {x : Exchange} {now : Instant}
    (hx : s.exchange? i = some x) (hcur : s.slot.isCurrent x.ticket = true) (hk : .ran k .clear now ∈ s.history) :
    Before s.history (.ran k .clear now) (.called i (.exchange x)) := by
  have hcalled : .called i (.exchange x) ∈ s.history := ((g.exchange_iff i x).1 hx).1
  refine (before_total hk hcalled (by simp)).resolve_right ?_
  intro hbefore
  cases hcur.symm.trans ((t.exchange i x hx).2 ⟨k, now, hbefore⟩)

/-- A load in time is that of a restore which has begun after every clear that has had its first step. -/
theorem restored_since (ht : Traced s) (t : Timely s) {j k : Nat} {f : Future m} {now : Instant}
    (hf : s.futures j = some f) (hl : f.phase.task = .waiting (.loading s.slot.generation))
    (hk : .ran k .clear now ∈ s.history) :
    ∃ now', Before s.history (.ran k .clear now) (.ran j .restore now') := by
  obtain ⟨now', hr⟩ := (ht.live j f hf).ran_of_loading hl
  refine ⟨now', (before_total hk ((mem_own rfl).1 hr) (by simp)).resolve_right ?_⟩
  intro hbefore
  exact (t.loading j f _ hf hl).2.1.2 ⟨now', .ran k .clear now, trivial, hbefore⟩ rfl

/-- A load that has been answered in time was so before the change, and the generation has stayed; or it is performed
right now. -/
theorem loaded_cases (g : Guarded s) (t : Timely s) {move : Move} (h : State.Change b s move s') {j : Nat}
    {f : Future m} {blob : String} (hf : s'.futures j = some f)
    (hp : f.phase = .answered (.loading s'.slot.generation) (Except.ok (some blob))) :
    (s'.slot.generation = s.slot.generation ∧ s.slot.inFlight = none ∧ ∃ f, s.futures j = some f ∧
      f.phase = .answered (.loading s.slot.generation) (Except.ok (some blob))) ∨
    ∃ w aborted, s.futures j = some ⟨.unanswered (.waiting (.loading s.slot.generation)), aborted⟩ ∧
      s' = s.perform b j w (.loading s.slot.generation) aborted ∧
      ((w.world b s.store).answer ((Stage.loading s.slot.generation).call m)).1 = Except.ok (some blob) := by
  obtain ⟨phase, aborted⟩ := f
  have ha : Arrival b s s' j phase := h.arrival g hf
  cases ha with
  | made _ _ _ => cases hp
  | ran _ _ _ => cases hp
  | @stays f hl _ =>
    have hp : f.phase = .answered (.loading s'.slot.generation) (Except.ok (some blob)) := hp
    obtain ⟨hle, -, hidle⟩ := t.loading j f _ hl (by rw [hp]; rfl)
    have hgen : s'.slot.generation = s.slot.generation := Nat.le_antisymm hle h.generation_le.1
    exact Or.inl ⟨hgen, hidle hgen, f, hl, hgen ▸ hp⟩
  | @performed w stage aborted' hl hs =>
    have hslot : s'.slot = s.slot := by rw [hs]; rfl
    rw [hslot] at hp
    injection hp with hstage hanswer
    subst hstage
    exact Or.inr ⟨w, aborted', hl, hs, eq_of_heq hanswer⟩

end Timely

/-- How an exchange ends that is driven to its end: as cancelled exactly when a clear has run since it was called, and
otherwise with the failure that it met or with a credential that was issued to it and that the slot then has. -/
def Landed (s : State m σ) : Prop :=
  ∀ i x o h, .called i (.exchange x) ∈ h → s.history = .resolved i o :: h → .abandoned i ∉ h →
    (o = .error .cancelled ↔ ∃ j now, Before h (.called i (.exchange x)) (.ran j .clear now)) ∧
    (o ≠ .error .cancelled → (∃ e, o = .error e ∧ OwnFailure m h i e) ∨
      ∃ c, o = .ok (some c.headerValue) ∧ Issued m h i c ∧ s.slot.credential = some c)

namespace Landed

variable {s s' : State m σ}

theorem new (store : σ) (nonces : Nonces) : Landed (State.new store nonces : State m σ) := by
  intro i x o h _ hh
  simp [State.new] at hh

/-- The poll that ends an exchange lands it. -/
theorem polls (g : Guarded s) (ht : Traced s) (t : Timely s) {i : Nat} {now : Instant} {f : Future m} {o : Outcome}
    {s₁ : Scene} (hf : s.futures i = some f) (hr : f.phase.run? (s.scene now) = some (.finished o, s₁)) {x : Exchange}
    (hc : .called i (.exchange x) ∈ s.history) :
    (o = .error .cancelled ↔ ∃ j now, Before s.history (.called i (.exchange x)) (.ran j .clear now)) ∧
    (o ≠ .error .cancelled →
      (∃ e, o = .error e ∧ OwnFailure m (.ran i f.phase.task now :: s.history) i e) ∨
      ∃ c, o = .ok (some c.headerValue) ∧ Issued m (.ran i f.phase.task now :: s.history) i c ∧
        s₁.slot.credential = some c) := by
  have hx : s.exchange? i = some x := (g.exchange_iff i x).2 ⟨hc, g.not_ended hf⟩
  rw [← t.exchange i x hx]
  have htask : f.phase.task.exchange? = some x := State.exchange?_of_future hf ▸ hx
  have hturn := run?_turn htask hr
  have hcourse := ht.live i f hf
  rcases hturn.finished (fun stage => g.honest i f stage hf) with ⟨e, rfl, he, -⟩ | ⟨c, rfl, hy, hcur, hslot⟩
  · refine ⟨?_, fun ho => Or.inl ⟨e, rfl, ?_⟩⟩
    · rw [Except.error.injEq, he]
      rfl
    · have hmet := hcourse.ownFailure_of_finished htask hr fun he => ho (congrArg _ he)
      rw [← own_cons_self (i := i) (by rfl)] at hmet
      exact hmet.of_own
  · have hcur' : s.slot.isCurrent x.ticket = true := hcur
    refine ⟨by simp [hcur'], fun _ => Or.inr ⟨c, rfl, ?_, by simp [hslot, release_credential, Slot.fill]⟩⟩
    obtain ⟨phase, aborted⟩ := f
    simp only at hy hcourse
    cases hy with
    | saved c blob => exact (hcourse.issued_of_saving rfl).1.of_own.mono (List.suffix_cons _ _)
    | unsaved _ ha =>
      have hi := hcourse.issued_of_accept ha
      rw [← own_cons_self (i := i) (by rfl)] at hi
      exact hi.of_own

/-- Every change lands the exchange that it ends. -/
theorem change (g : Guarded s) (ht : Traced s) (t : Timely s) (l : Landed s) {move : Move}
    (h : State.Change b s move s') : Landed s' := by
  intro i x o hist hc hh hn
  rcases h.resolved_cases hh with ⟨hold, hslot⟩ | ⟨ha, -⟩ | ⟨f, now, s₁, hf, hr, rfl, hslot⟩
  · rw [hslot]
    exact l i x o hist hc hold hn
  · exact absurd ha hn
  · have hc' : .called i (.exchange x) ∈ s.history := by simpa using hc
    have hx : s.exchange? i = some x := (g.exchange_iff i x).2 ⟨hc', g.not_ended hf⟩
    rw [State.exchange?_of_future hf] at hx
    obtain ⟨hiff, hland⟩ := polls g ht t hf hr hc'
    rw [hslot]
    refine ⟨hiff.trans ?_, hland⟩
    refine exists_congr fun k => exists_congr fun now' => ?_
    rw [before_cons, or_iff_left]
    rintro ⟨he, -⟩
    injection he with _ ht
    rw [← ht] at hx
    cases hx

/-- Every exchange lands, in every interleaving. -/
theorem run (b : Backing σ) (store : σ) (nonces : Nonces) (moves : List Move) :
    Landed ((State.new store nonces : State m σ).run b moves) :=
  State.new_run_induction (new store nonces)
    (fun moves _ l => l.change (Guarded.run b store nonces moves) (Traced.run b store nonces moves)
      (Timely.run b store nonces moves) (State.step_change b _ _)) moves

end Landed

/-- A move about an exchange that a clear has superseded leaves the credential alone. -/
theorem credential_of_superseded {s : State m σ} (g : Guarded s) (t : Timely s) {i j : Nat} {x : Exchange}
    {now : Instant} (hb : Before s.history (.called i (.exchange x)) (.ran j .clear now)) {move : Move}
    (hm : move.future? = some i) : (s.step b move).slot.credential = s.slot.credential := by
  rcases (s.step_change b move).slot_cases hm with hs | ⟨f, -, hs⟩ | ⟨f, now, ⟨p, s₁⟩, hf, hr, hs⟩
  · rw [hs]
  · rw [hs]
    exact drop_credential _ _
  · rw [hs]
    have hx : s.exchange? i = some x := (g.exchange_iff i x).2 ⟨hb.mem.1, g.not_ended hf⟩
    have hlate : s.slot.isCurrent x.ticket = false := (t.exchange i x hx).2 ⟨j, _, hb⟩
    have hturn := run?_turn (State.exchange?_of_future hf ▸ hx) hr
    cases p with
    | waiting stage =>
      rw [hturn.waiting.2.2]
      rfl
    | finished o =>
      rcases hturn.finished (fun stage => g.honest i f stage hf) with ⟨e, -, -, hslot⟩ | ⟨c, -, -, hcur, -⟩
      · rw [hslot]
        exact release_credential _ _
      · cases hlate.symm.trans hcur

/-- A move about a future leaves the slot alone if the future has no guard to release, is no clear before its first
step, and does not wait for a load in time. -/
theorem slot_of_idle {s : State m σ} {i : Nat} (hi : ∀ f, s.futures i = some f →
      f.phase.task.exchange? = none ∧ f.phase.task ≠ .clear ∧ f.phase.task ≠ .waiting (.loading s.slot.generation))
    {move : Move} (hm : move.future? = some i) : (s.step b move).slot = s.slot := by
  rcases (s.step_change b move).slot_cases hm with hs | ⟨f, hf, hs⟩ | ⟨f, now, run, hf, hr, hs⟩
  · exact hs
  · rw [hs]
    simp [Task.drop, Task.ticket?_eq, (hi f hf).1]
  · obtain ⟨hx, hclear, hload⟩ := hi f hf
    rw [hs]
    rcases (run?_sideTurn hx hr).slot with ⟨-, hs⟩ | ⟨hcl, -⟩ | ⟨blob, c, -, -, hp, -⟩
    · exact hs
    · exact absurd hcl hclear
    · exact absurd (by rw [hp]; rfl) hload

/-- A move about a restore that was superseded since its first step leaves the slot alone. -/
theorem slot_of_superseded {s : State m σ} (ht : Traced s) (t : Timely s) {i : Nat} {now : Instant} {e : Event}
    (he : e.Supersedes) (hb : Before s.history (.ran i .restore now) e) {move : Move} (hm : move.future? = some i) :
    (s.step b move).slot = s.slot := by
  refine slot_of_idle (fun f hf => ?_) hm
  rcases (ht.live i f hf).of_ran_restore ((mem_own rfl).2 hb.mem.1) with ⟨g, hl⟩ | ⟨e, hl⟩
  · have hlate := (t.loading i f g hf hl).2.1.2 ⟨now, e, he, hb⟩
    rw [hl]
    exact ⟨rfl, by simp, by simpa using hlate⟩
  · rw [hl]
    exact ⟨rfl, by simp, by simp⟩

/-- A move about a clear that has had its first step leaves the slot alone. -/
theorem slot_of_ran_clear {s : State m σ} (ht : Traced s) {k : Nat} {now : Instant}
    (hr : .ran k .clear now ∈ s.history) {move : Move} (hm : move.future? = some k) :
    (s.step b move).slot = s.slot := by
  refine slot_of_idle (fun f hf => ?_) hm
  rw [(ht.live k f hf).of_ran_clear ((mem_own rfl).2 hr)]
  exact ⟨rfl, by simp, by simp⟩

/-- Superseded work never lands, in any interleaving. An exchange that is driven to its end is cancelled exactly when a
clear has run since it was called; else it ends with the header that the slot then has, or with the failure that it met.
After a clear no exchange from before it writes the credential, and after a clear or the begin of an exchange no restore
does whose first step came before. -/
theorem superseded_never_lands (b : Backing σ) (store : σ) (nonces : Nonces) (moves : List Move) :
    let s : State m σ := (State.new store nonces).run b moves
    (∀ i x o h, .called i (.exchange x) ∈ h → s.history = .resolved i o :: h → .abandoned i ∉ h →
      (o = .error .cancelled ↔ ∃ j now, Before h (.called i (.exchange x)) (.ran j .clear now)) ∧
      (o ≠ .error .cancelled → (∃ e, o = .error e ∧ OwnFailure m h i e) ∨
        ∃ hd, o = .ok (some hd) ∧ s.slot.header = some hd)) ∧
    (∀ i j x now move, Before s.history (.called i (.exchange x)) (.ran j .clear now) → move.future? = some i →
      (s.step b move).slot.credential = s.slot.credential) ∧
    (∀ i now e move, ((∃ j now, e = .ran j .clear now) ∨ ∃ j x, e = .called j (.exchange x)) →
      Before s.history (.ran i .restore now) e → move.future? = some i → (s.step b move).slot = s.slot) := by
  intro s
  have g : Guarded s := Guarded.run b store nonces moves
  have ht : Traced s := Traced.run b store nonces moves
  have t : Timely s := Timely.run b store nonces moves
  have l : Landed s := Landed.run b store nonces moves
  refine ⟨fun i x o h hc hh hn => ⟨(l i x o h hc hh hn).1, fun ho => ((l i x o h hc hh hn).2 ho).imp_right ?_⟩,
    fun i j x now move hb hm => credential_of_superseded g t hb hm, fun i now e move he hb hm => ?_⟩
  · rintro ⟨c, hok, -, hslot⟩
    exact ⟨c.headerValue, hok, by rw [Slot.header, hslot]; rfl⟩
  · exact slot_of_superseded ht t ((Event.supersedes_iff e).2 he) hb hm

/-- The service gives no nonce. An exchange that nothing supersedes ends with just that failure. One that begins while a
restore waits to be polled, and is cleared before its own first step, is told that it was cancelled, and neither of the
two changes what the slot has after that. -/
theorem superseded_never_lands_unanswered :
    let m : Manager := ⟨{}, .never, some (.ofPassword .aes256Gcm "password")⟩
    let p : Enrollment.Params := { publicKey := [4] }
    let now : Instant := ⟨0, 0⟩
    let w : Weather := ⟨.error (.status 503), .error (.status 500), {}⟩
    let new : State m Entries := .new .empty (.ofList [])
    let driven (i : Nat) : List Move :=
      [.poll i now, .perform i w, .poll i now, .perform i w, .poll i now, .perform i w, .poll i now]
    let wanted : State m Entries := new.run .memory (.obtain p :: driven 0)
    let cleared : State m Entries :=
      new.run .memory ([.restore, .poll 0 now, .perform 0 w, .obtain p, .clear, .poll 2 now] ++ driven 1)
    (∃ h, wanted.history = .resolved 0 (.error (.transport (.status 503))) :: h ∧
      OwnFailure m h 0 (.transport (.status 503))) ∧
    (∃ h j now, cleared.history = .resolved 1 (.error .cancelled) :: h ∧
      Before h (.called 1 (.exchange ⟨1, p⟩)) (.ran j .clear now)) ∧
    (cleared.step .memory (.poll 1 now)).slot.credential = cleared.slot.credential ∧
    (cleared.step .memory (.poll 0 now)).slot = cleared.slot := by
  intro m p now w new driven wanted cleared
  let x : Exchange := ⟨1, p⟩
  -- what happens to an exchange from its first poll to its last
  let driving (i : Nat) : List Event :=
    [.ran i (.waiting (.cleaningUp x (.transport (.status 503)))) now,
      .performed i (.remove m.config.storageKey) (Except.ok ()), .ran i (.waiting (.fetchingNonce x)) now,
      .performed i .fetchNonce (Except.error (.status 503)), .ran i (.waiting (.removingOld x)) now,
      .performed i (.remove m.config.storageKey) (Except.ok ()), .ran i (.exchange x) now]
  have hwanted : wanted.history =
      .resolved 0 (.error (.transport (.status 503))) :: driving 0 ++ [.called 0 (.exchange x)] := rfl
  have hcleared : cleared.history = .resolved 1 (.error .cancelled) :: driving 1 ++
      [.ran 2 .clear now, .called 2 .clear, .called 1 (.exchange x),
        .performed 0 (.load m.config.storageKey) (Except.ok none), .ran 0 .restore now, .called 0 .restore] := rfl
  obtain ⟨hends, -, -⟩ := superseded_never_lands (m := m) .memory Entries.empty (.ofList []) (.obtain p :: driven 0)
  obtain ⟨hends', hexchange, hrestore⟩ := superseded_never_lands (m := m) .memory Entries.empty (.ofList [])
    ([.restore, .poll 0 now, .perform 0 w, .obtain p, .clear, .poll 2 now] ++ driven 1)
  refine ⟨⟨_, hwanted, ?_⟩, ?_, ?_, ?_⟩
  · have hown := (hends 0 x _ _ (by simp) hwanted (by simp [driving])).2 (by simp)
    rcases hown with ⟨e, he, hmet⟩ | ⟨hd, hok, -⟩
    · cases he
      exact hmet
    · cases hok
  · obtain ⟨j, now', hbefore⟩ := (hends' 1 x _ _ (by simp) hcleared (by simp [driving])).1.1 rfl
    exact ⟨_, j, now', hcleared, hbefore⟩
  · have hbefore : Before cleared.history (.called 1 (.exchange x)) (.ran 2 .clear now) := by
      rw [hcleared]
      simp [driving, before_cons]
    exact hexchange 1 2 x now (.poll 1 now) hbefore rfl
  · have hbefore : Before cleared.history (.ran 0 .restore now) (.called 1 (.exchange x)) := by
      rw [hcleared]
      simp [driving, before_cons]
    exact hrestore 0 now _ (.poll 0 now) (Or.inr ⟨1, x, rfl⟩) hbefore rfl

end ClientAuth.Interleaving
