import ClientAuth.Proofs.Interleaving.Guard

/-!
# The course of a future

What happens to one future is a row of its own events: its making, and then calls performed and polls in turn. `Course`
builds these rows along with the phase that the future is in. In every interleaving the events of a live future are a
course to its phase, and those of one that has resolved are a course and the poll that ended it (`Traced`).
-/

namespace ClientAuth.Interleaving

variable {m : Manager} {σ : Type} {b : Backing σ}

/-- How a future comes to a phase by events of its own, newest first. -/
inductive Course (m : Manager) (i : Nat) : Phase m → List Event → Prop where
  | made {t : Task} (ht : ∀ stage, t ≠ .waiting stage) : Course m i (.unanswered t) [.called i t]
  | performed {stage : Stage} {es : List Event} (a : (stage.call m).Answer)
      (hc : Course m i (.unanswered (.waiting stage)) es) :
      Course m i (.answered stage a) (.performed i (stage.call m) a :: es)
  | ran {f : Phase m} {es : List Event} {s s' : Scene} {stage : Stage} (hc : Course m i f es)
      (hr : f.run? s = some (.waiting stage, s')) :
      Course m i (.unanswered (.waiting stage)) (.ran i f.task s.now :: es)

namespace Course

variable {i : Nat} {f : Phase m} {es : List Event}

/-- What has yet to run has only been made. -/
theorem eq_of_start {t : Task} (hc : Course m i (.unanswered t) es) (ht : ∀ stage, t ≠ .waiting stage) :
    es = [.called i t] := by
  cases hc with
  | made _ => rfl
  | ran _ _ => exact absurd rfl (ht _)

/-- A call was answered after the task came to wait for it. -/
theorem of_answered {stage : Stage} {a : (stage.call m).Answer} (hc : Course m i (.answered stage a) es) :
    ∃ es', es = .performed i (stage.call m) a :: es' ∧ Course m i (.unanswered (.waiting stage)) es' := by
  cases hc with
  | performed _ hc => exact ⟨_, rfl, hc⟩

/-- A task came to wait by a poll. -/
theorem of_waiting {stage : Stage} (hc : Course m i (.unanswered (.waiting stage)) es) :
    ∃ f es' s s', es = .ran i f.task s.now :: es' ∧ Course m i f es' ∧ f.run? s = some (.waiting stage, s') := by
  cases hc with
  | made ht => exact absurd rfl (ht stage)
  | ran hc hr => exact ⟨_, _, _, _, rfl, hc, hr⟩

/-- A future was made once, and for the task that it belongs to. -/
theorem called_iff (hc : Course m i f es) (t : Task) : .called i t ∈ es ↔ t = f.task.origin := by
  induction hc with
  | @made u hu =>
    rw [List.mem_singleton, Event.called.injEq, and_iff_right rfl]
    cases u with
    | waiting stage => exact absurd rfl (hu stage)
    | _ => rfl
  | performed a _ ih =>
    rw [List.mem_cons, or_iff_right (by simp), ih]
    rfl
  | ran _ hr ih =>
    rw [List.mem_cons, or_iff_right (by simp), ih, ← run?_origin hr]
    rfl

/-- A future belongs to the exchange that it was made for. -/
theorem exchange?_iff (hc : Course m i f es) (x : Exchange) :
    f.task.exchange? = some x ↔ .called i (.exchange x) ∈ es := by
  rw [hc.called_iff, Task.exchange?_iff_origin, eq_comm]

/-- A future stays with what it was made for. -/
theorem origin_of_ran (hc : Course m i f es) {t : Task} {now : Instant} (hr : .ran i t now ∈ es) :
    t.origin = f.task.origin := by
  induction hc with
  | made _ => simp at hr
  | performed a _ ih => exact ih (by simpa using hr)
  | ran _ hrun ih =>
    have hstep := run?_origin hrun
    rcases List.mem_cons.1 hr with he | hr
    · injection he with _ ht
      rw [ht]
      exact hstep.symm
    · rw [ih hr]
      exact hstep.symm

/-- A future that was refused never waits. -/
theorem eq_of_refused {e : AuthError} (hc : Course m i f es) (he : .called i (.refused e) ∈ es) :
    f = .unanswered (.refused e) := by
  have ho := (hc.called_iff _).1 he
  cases f with
  | answered stage a => cases stage <;> cases ho
  | unanswered t =>
    cases t with
    | refused e' => exact congrArg (fun t => Phase.unanswered t) ho.symm
    | waiting stage => cases stage <;> cases ho
    | exchange x => cases ho
    | clear => cases ho
    | restore => cases ho

/-- A load was first waited for by the first step of a restore. -/
theorem ran_of_loading {g : Nat} (hc : Course m i f es) (hl : f.task = .waiting (.loading g)) :
    ∃ now, .ran i .restore now ∈ es := by
  have hwait : ∀ es, Course m i (.unanswered (.waiting (.loading g))) es → ∃ now, .ran i .restore now ∈ es := by
    intro es hc
    obtain ⟨f, es', s, s', rfl, -, hr⟩ := hc.of_waiting
    obtain ⟨rfl, -, -, -⟩ := run?_loading hr
    exact ⟨s.now, List.mem_cons_self⟩
  cases f with
  | unanswered t =>
    obtain rfl : t = .waiting (.loading g) := hl
    exact hwait es hc
  | answered stage a =>
    obtain rfl : stage = .loading g := Task.waiting.inj hl
    obtain ⟨es', rfl, hc'⟩ := hc.of_answered
    obtain ⟨now, hr⟩ := hwait es' hc'
    exact ⟨now, List.mem_cons_of_mem _ hr⟩

/-- What has run does not stand at its first step. -/
theorem waiting_of_ran {t : Task} {now : Instant} (hc : Course m i f es) (hr : .ran i t now ∈ es) :
    ∃ stage, f.task = .waiting stage := by
  cases f with
  | answered stage a => exact ⟨stage, rfl⟩
  | unanswered u =>
    cases u with
    | waiting stage => exact ⟨stage, rfl⟩
    | _ => simp [hc.eq_of_start (by simp)] at hr

/-- Once its first step has run, a restore waits for its load or for the removal of an entry that cannot be used. -/
theorem of_ran_restore {now : Instant} (hc : Course m i f es) (hr : .ran i .restore now ∈ es) :
    (∃ g, f.task = .waiting (.loading g)) ∨ ∃ e, f.task = .waiting (.discarding e) := by
  obtain ⟨stage, hs⟩ := hc.waiting_of_ran hr
  have ho := hc.origin_of_ran hr
  rw [hs] at ho ⊢
  cases stage with
  | loading g => exact Or.inl ⟨g, rfl⟩
  | discarding e => exact Or.inr ⟨e, rfl⟩
  | _ => cases ho

/-- Once its first step has run, a clear waits for the removal. -/
theorem of_ran_clear {now : Instant} (hc : Course m i f es) (hr : .ran i .clear now ∈ es) :
    f.task = .waiting .removing := by
  obtain ⟨stage, hs⟩ := hc.waiting_of_ran hr
  have ho := hc.origin_of_ran hr
  rw [hs] at ho ⊢
  cases stage with
  | removing => rfl
  | _ => cases ho

end Course

/-- A credential was issued to an exchange: the answer to its request was accepted. -/
def Issued (m : Manager) (h : List Event) (i : Nat) (c : Credential) : Prop :=
  ∃ x request r now, .called i (.exchange x) ∈ h ∧ .performed i (.enroll request) (Except.ok r) ∈ h ∧
    .ran i (.waiting (.enrolling x request)) now ∈ h ∧ m.config.accept x.params r now = .ok c

theorem Issued.mono {h h' : List Event} {i : Nat} {c : Credential} (hi : Issued m h i c) (hs : h <:+ h') :
    Issued m h' i c := by
  obtain ⟨x, request, r, now, hc, hp, hr, ha⟩ := hi
  exact ⟨x, request, r, now, hs.subset hc, hs.subset hp, hs.subset hr, ha⟩

/-- What was issued by the events of a future was issued. -/
theorem Issued.of_own {h : List Event} {i : Nat} {c : Credential} (hi : Issued m (own i h) i c) : Issued m h i c := by
  obtain ⟨x, request, r, now, hc, hp, hr, ha⟩ := hi
  exact ⟨x, request, r, now, (mem_own rfl).1 hc, (mem_own rfl).1 hp, (mem_own rfl).1 hr, ha⟩

/-- The failure that an exchange met: the service gave it no nonce or did not answer its request, the answer was not
accepted, or the credential could not be saved. -/
inductive OwnFailure (m : Manager) (h : List Event) (i : Nat) : AuthError → Prop where
  | nonce {e : Enrollment.TransportError} (hp : .performed i .fetchNonce (Except.error e) ∈ h) :
      OwnFailure m h i (.transport e)
  | enroll {request : Enrollment.Request} {e : Enrollment.TransportError}
      (hp : .performed i (.enroll request) (Except.error e) ∈ h) : OwnFailure m h i (.transport e)
  | rejected {x : Exchange} {request : Enrollment.Request} {r : Enrollment.Response} {now : Instant} {e : AuthError}
      (hc : .called i (.exchange x) ∈ h) (hp : .performed i (.enroll request) (Except.ok r) ∈ h)
      (hr : .ran i (.waiting (.enrolling x request)) now ∈ h) (ha : m.config.accept x.params r now = .error e) :
      OwnFailure m h i e
  | save {key blob : String} {e : VaultError} (hp : .performed i (.save key blob) (Except.error e) ∈ h) :
      OwnFailure m h i (.vault .persisting e)

namespace OwnFailure

variable {h h' : List Event} {i : Nat} {e : AuthError}

/-- A failure that was met in some events was met in any that have these among them. -/
theorem of_events (hf : OwnFailure m h i e) (hs : ∀ e ∈ h, e ∈ h') : OwnFailure m h' i e := by
  cases hf with
  | nonce hp => exact .nonce (hs _ hp)
  | enroll hp => exact .enroll (hs _ hp)
  | rejected hc hp hr ha => exact .rejected (hs _ hc) (hs _ hp) (hs _ hr) ha
  | save hp => exact .save (hs _ hp)

theorem mono (hf : OwnFailure m h i e) (hs : h <:+ h') : OwnFailure m h' i e :=
  hf.of_events fun _ he => hs.subset he

/-- What was met by the events of a future was met. -/
theorem of_own (hf : OwnFailure m (own i h) i e) : OwnFailure m h i e :=
  hf.of_events fun _ he => (List.mem_filter.1 he).1

end OwnFailure

namespace Course

variable {i : Nat} {f : Phase m} {es : List Event}

/-- The poll that has an enrollment accepted finds that its credential was issued. -/
theorem issued_of_accept {x : Exchange} {request : Enrollment.Request} {r : Enrollment.Response} {c : Credential}
    {now : Instant} (hc : Course m i (.answered (.enrolling x request) (Except.ok r)) es)
    (ha : m.config.accept x.params r now = .ok c) :
    Issued m (.ran i (.waiting (.enrolling x request)) now :: es) i c := by
  have hx : .called i (.exchange x) ∈ es := (hc.exchange?_iff x).1 rfl
  obtain ⟨es₁, rfl, -⟩ := hc.of_answered
  exact ⟨x, request, r, now, List.mem_cons_of_mem _ hx, List.mem_cons_of_mem _ List.mem_cons_self,
    List.mem_cons_self, ha⟩

/-- What an exchange saves was issued to it. -/
theorem issued_of_saving {x : Exchange} {c : Credential} {blob : String} (hc : Course m i f es)
    (hf : f.task = .waiting (.saving x c blob)) : Issued m es i c ∧
      ∃ cipher n, m.cipher = some cipher ∧ blob = (cipher.encloseValue Credential.codec n c).1 := by
  have hwait : ∀ es, Course m i (.unanswered (.waiting (.saving x c blob))) es → Issued m es i c ∧
      ∃ cipher n, m.cipher = some cipher ∧ blob = (cipher.encloseValue Credential.codec n c).1 := by
    intro es hc
    obtain ⟨f, es₁, s, s', rfl, hc₁, hr⟩ := hc.of_waiting
    obtain ⟨request, r, cipher, rfl, ha, hm, hblob⟩ := run?_saving hr
    exact ⟨hc₁.issued_of_accept ha, cipher, s.nonces, hm, hblob⟩
  cases f with
  | unanswered t =>
    obtain rfl : t = .waiting (.saving x c blob) := hf
    exact hwait es hc
  | answered stage a =>
    obtain rfl : stage = .saving x c blob := Task.waiting.inj hf
    obtain ⟨es', rfl, hc'⟩ := hc.of_answered
    obtain ⟨hi, hblob⟩ := hwait es' hc'
    exact ⟨hi.mono (List.suffix_cons _ _), hblob⟩

/-- What makes an exchange give up is a failure that it met, unless it was superseded. -/
theorem ownFailure_of_cause {x : Exchange} {s : Scene} {e : AuthError} (hc : Course m i f es) (hf : Cause m x s f e)
    (he : e ≠ .cancelled) : OwnFailure m (.ran i f.task s.now :: es) i e := by
  cases hf with
  | nonce e =>
    obtain ⟨es₁, rfl, -⟩ := hc.of_answered
    exact .nonce (List.mem_cons_of_mem _ List.mem_cons_self)
  | enroll request e =>
    obtain ⟨es₁, rfl, -⟩ := hc.of_answered
    exact .enroll (List.mem_cons_of_mem _ List.mem_cons_self)
  | rejected ha =>
    have hx : .called i (.exchange x) ∈ es := (hc.exchange?_iff x).1 rfl
    obtain ⟨es₁, rfl, -⟩ := hc.of_answered
    exact .rejected (List.mem_cons_of_mem _ hx) (List.mem_cons_of_mem _ List.mem_cons_self) List.mem_cons_self ha
  | early _ _ => exact absurd rfl he
  | save c blob e =>
    obtain ⟨es₁, rfl, -⟩ := hc.of_answered
    exact .save (List.mem_cons_of_mem _ List.mem_cons_self)
  | late _ => exact absurd rfl he

/-- The failure that a poll ends an exchange with is one that it met, unless it was superseded. -/
theorem ownFailure_of_finished {x : Exchange} {s s' : Scene} {e : AuthError} (hc : Course m i f es)
    (hx : f.task.exchange? = some x) (hr : f.run? s = some (.finished (.error e), s')) (he : e ≠ .cancelled) :
    OwnFailure m (.ran i f.task s.now :: es) i e := by
  cases run?_turn hx hr with
  | fails _ hcause _ =>
    split at he
    · rename_i hcurrent
      rw [if_pos hcurrent]
      exact hc.ownFailure_of_cause hcause he
    · exact absurd rfl he
  | ends e a _ =>
    split at he
    · rename_i hcurrent
      -- the failure was met at the poll that went on to remove what may have been saved
      obtain ⟨es₁, rfl, hc₁⟩ := hc.of_answered
      obtain ⟨f, es₂, s₁, s₂, rfl, hc₂, hr₁⟩ := hc₁.of_waiting
      rw [if_pos hcurrent]
      exact (hc₂.ownFailure_of_cause (run?_cleaningUp hr₁) he).mono ⟨[_, _], rfl⟩
    · exact absurd rfl he

end Course

/-- The poll that ends a future takes it from the end of a course. -/
def Finish (m : Manager) (i : Nat) (o : Outcome) (es : List Event) : Prop :=
  ∃ f es' s s', es = .resolved i o :: .ran i f.task s.now :: es' ∧ Course m i f es' ∧
    f.run? s = some (.finished o, s')

/-- How a live future has come to its phase by one change. -/
inductive Arrival (b : Backing σ) (s s' : State m σ) (i : Nat) : Phase m → Prop where
  | stays {f : Future m} (hf : s.futures i = some f) (ho : own i s'.history = own i s.history) :
      Arrival b s s' i f.phase
  | made {t : Task} {slot : Slot} (hi : i = s.made) (ht : ∀ stage, t ≠ .waiting stage)
      (hs : s' = { s with slot }.add t) : Arrival b s s' i (.unanswered t)
  | performed {w : Weather} {stage : Stage} {aborted : Bool}
      (hf : s.futures i = some ⟨.unanswered (.waiting stage), aborted⟩) (hs : s' = s.perform b i w stage aborted) :
      Arrival b s s' i (.answered stage ((w.world b s.store).answer (stage.call m)).1)
  | ran {f : Future m} {now : Instant} {stage : Stage} {s₁ : Scene} (hf : s.futures i = some f)
      (hr : f.phase.run? (s.scene now) = some (.waiting stage, s₁))
      (hs : s' = { s with history := .ran i f.phase.task now :: s.history }.settle i (.waiting stage, s₁)) :
      Arrival b s s' i (.unanswered (.waiting stage))

/-- Every live future after a change has come to its phase in one of these ways. -/
theorem State.Change.arrival {s s' : State m σ} (g : Guarded s) {move : Move} (h : State.Change b s move s') {i : Nat}
    {f : Future m} (hf : s'.futures i = some f) : Arrival b s s' i f.phase := by
  by_cases hm : move.future? = some i
  · cases h with
    | still => exact Arrival.stays hf rfl
    | begins _ _ => cases hm
    | refuses _ => cases hm
    | asksClear => cases hm
    | asksRestore => cases hm
    | @performs _ w stage aborted hg =>
      cases hm
      simp only [State.perform, Function.update_self, Option.some.injEq] at hf
      subst hf
      exact Arrival.performed hg rfl
    | @aborts _ f' hg _ =>
      cases hm
      simp only [Function.update_self, Option.some.injEq] at hf
      subst hf
      exact Arrival.stays (f := f') hg rfl
    | drops hg =>
      cases hm
      simp [State.abandon] at hf
    | cutsOff hg _ =>
      cases hm
      simp [State.abandon] at hf
    | @polls _ now g run hg _ hr =>
      cases hm
      obtain ⟨p, s₁⟩ := run
      cases p with
      | waiting stage =>
        have hf' := hf
        simp only [State.settle, Function.update_self, Option.some.injEq] at hf'
        subst hf'
        exact Arrival.ran hg hr rfl
      | finished o => simp [State.settle] at hf
  · by_cases hi : i < s.made
    · obtain ⟨hfut, hown⟩ := h.frame hi hm
      exact Arrival.stays (hfut ▸ hf) hown
    · have hi' : i < s'.made := (g.change h).live_lt i f hf
      rcases h.made_cases with he | ⟨-, t, slot, ht, rfl⟩
      · omega
      · have himade : i = s.made := by
          simp only [State.add] at hi'
          omega
        subst himade
        simp only [State.add, Function.update_self, Option.some.injEq] at hf
        subst hf
        exact Arrival.made rfl ht rfl

/-- Nothing happens to a future that has ended. -/
theorem State.Change.own_of_ended {s s' : State m σ} (g : Guarded s) {move : Move} (h : State.Change b s move s')
    {i : Nat} (he : Ended i s.history) : own i s'.history = own i s.history := by
  by_cases hm : move.future? = some i
  · rw [h.eq_of_gone hm (g.gone i he)]
  · exact (h.frame (g.ended_lt i he) hm).2

/-- What has happened to every future is a course, and futures were called in the order of their numbers. -/
structure Traced (s : State m σ) : Prop where
  known : ∀ e ∈ s.history, e.future < s.made
  ordered : ∀ i t e, .called i t ∈ s.history → e ∈ s.history → i < e.future → Before s.history (.called i t) e
  live : ∀ i f, s.futures i = some f → Course m i f.phase (own i s.history)
  resolved : ∀ i o, .resolved i o ∈ s.history →
    Finish m i o (own i s.history) ∨ .abandoned i ∈ s.history ∧ o = .error .cancelled

namespace Traced

variable {s s' : State m σ}

theorem new (store : σ) (nonces : Nonces) : Traced (State.new store nonces : State m σ) := by
  refine ⟨?_, ?_, ?_, ?_⟩ <;> simp [State.new]

/-- Nothing has happened to a future that was not made. -/
theorem own_made (t : Traced s) {i : Nat} (hi : s.made ≤ i) : own i s.history = [] := by
  refine List.filter_eq_nil_iff.2 fun e he => ?_
  have := t.known e he
  simp only [decide_eq_true_eq]
  omega

/-- A future that a change resolves was carried to the end of its course, or was dropped. -/
theorem change_resolved (k : Kept s) (t : Traced s) {move : Move} (h : State.Change b s move s') {i : Nat}
    (hm : move.future? = some i) {f : Future m} (hlive : s.futures i = some f) {o : Outcome}
    (ho : .resolved i o ∈ s'.history) :
    Finish m i o (own i s'.history) ∨ .abandoned i ∈ s'.history ∧ o = .error .cancelled := by
  have hold : .resolved i o ∉ s.history := fun hr => k.not_ended hlive (Or.inr ⟨o, hr⟩)
  cases h with
  | still => exact absurd ho hold
  | begins _ _ => cases hm
  | refuses _ => cases hm
  | asksClear => cases hm
  | asksRestore => cases hm
  | performs _ => exact absurd (by simpa [State.perform] using ho) hold
  | aborts _ _ => exact absurd ho hold
  | drops _ => exact absurd (by simpa [State.abandon] using ho) hold
  | cutsOff _ _ =>
    cases hm
    simp only [List.mem_cons, Event.resolved.injEq, true_and, reduceCtorEq, false_or] at ho
    exact Or.inr ⟨by simp, ho.resolve_right hold⟩
  | @polls _ now g run hg _ hr =>
    cases hm
    obtain ⟨p, s₁⟩ := run
    cases p with
    | waiting stage => exact absurd (by simpa [State.settle] using ho) hold
    | finished o' =>
      simp only [State.settle, List.mem_cons, Event.resolved.injEq, true_and, reduceCtorEq, false_or] at ho
      obtain rfl := ho.resolve_right hold
      refine Or.inl ⟨g.phase, _, _, s₁, ?_, t.live i g hg, hr⟩
      simp only [State.settle]
      rw [own_cons, if_pos (by rfl), own_cons, if_pos (by rfl)]
      rfl

/-- A change adds events about futures that were made. -/
theorem change_known (k : Kept s) (t : Traced s) {move : Move} (h : State.Change b s move s') :
    ∀ e ∈ s'.history, e.future < s'.made := by
  obtain ⟨es, hh, ⟨hm, u, rfl⟩ | ⟨hm, hes⟩⟩ := h.events
  · intro e he
    rw [hh, List.singleton_append, List.mem_cons] at he
    rcases he with rfl | he
    · exact hm ▸ Nat.lt_succ_self _
    · have := t.known e he
      omega
  · intro e he
    rw [hm]
    rw [hh, List.mem_append] at he
    rcases he with he | he
    · obtain ⟨f, hf⟩ := (hes e he).2
      exact k.live_lt _ f hf
    · exact t.known e he

/-- A change adds nothing about a future before the making of one with a smaller number. -/
theorem change_ordered (k : Kept s) (t : Traced s) {move : Move} (h : State.Change b s move s') {i : Nat} {u : Task}
    {e : Event} (hc : .called i u ∈ s'.history) (he : e ∈ s'.history) (hi : i < e.future) :
    Before s'.history (.called i u) e := by
  have hknown := t.change_known k h e he
  obtain ⟨es, hh, ⟨hm, v, rfl⟩ | ⟨hm, hes⟩⟩ := h.events
  · have hold : .called i u ∈ s.history := by
      rw [hh, List.singleton_append, List.mem_cons] at hc
      refine hc.resolve_left fun heq => ?_
      injection heq with heq
      omega
    rw [hh] at he ⊢
    rcases List.mem_append.1 he with he | he
    · exact before_of_new hold he
    · exact (t.ordered i u e hold he hi).mono (List.suffix_append _ _)
  · have hold : .called i u ∈ s.history := by
      rw [hh, List.mem_append] at hc
      exact hc.resolve_left fun heq => (hes _ heq).1 i u rfl
    rw [hh] at he ⊢
    rcases List.mem_append.1 he with he | he
    · exact before_of_new hold he
    · exact (t.ordered i u e hold he hi).mono (List.suffix_append _ _)

/-- Every change keeps to courses. -/
theorem change (g : Guarded s) (t : Traced s) {move : Move} (h : State.Change b s move s') : Traced s' := by
  have hknown := t.change_known g.toKept h
  refine ⟨hknown, fun i u e => t.change_ordered g.toKept h, fun i f hf => ?_, fun i o ho => ?_⟩
  · obtain ⟨phase, aborted⟩ := f
    have ha : Arrival b s s' i phase := h.arrival g hf
    cases ha with
    | stays hl ho =>
      have hc := t.live i _ hl
      rw [ho]
      exact hc
    | made hi ht hs =>
      subst hi hs
      simp only [State.add]
      rw [own_cons, if_pos (by rfl), t.own_made (Nat.le_refl _)]
      exact Course.made ht
    | performed hl hs =>
      subst hs
      simp only [State.perform]
      rw [own_cons, if_pos (by rfl)]
      exact Course.performed _ (t.live i _ hl)
    | ran hl hr hs =>
      subst hs
      simp only [State.settle]
      rw [own_cons, if_pos (by rfl)]
      exact Course.ran (t.live i _ hl) hr
  · by_cases hm : move.future? = some i
    · cases hl : s.futures i with
      | none =>
        rw [h.eq_of_gone hm hl] at ho ⊢
        exact t.resolved i o ho
      | some f => exact t.change_resolved g.toKept h hm hl ho
    by_cases hi : i < s.made
    · rw [h.mem_history hi hm rfl] at ho ⊢
      rw [(h.frame hi hm).2]
      exact t.resolved i o ho
    · have hi' : i < s'.made := hknown _ ho
      rcases h.made_cases with he | ⟨-, u, slot, hu, rfl⟩
      · omega
      · simp only [State.add, List.mem_cons, reduceCtorEq, false_or] at ho
        exact absurd (t.known _ ho) hi

/-- What has happened to every future is a course, in every interleaving. -/
theorem run (b : Backing σ) (store : σ) (nonces : Nonces) (moves : List Move) :
    Traced ((State.new store nonces : State m σ).run b moves) :=
  State.new_run_induction (new store nonces)
    (fun moves _ t => t.change (Guarded.run b store nonces moves) (State.step_change b _ _)) moves

/-- What a live future was answered has been performed. -/
theorem performed_of_answered (t : Traced s) {i : Nat} {f : Future m} (hf : s.futures i = some f) {stage : Stage}
    {a : (stage.call m).Answer} (hp : f.phase = .answered stage a) : .performed i (stage.call m) a ∈ s.history := by
  have hc := t.live i f hf
  rw [hp] at hc
  obtain ⟨es, hown, -⟩ := hc.of_answered
  refine (mem_own (i := i) rfl).1 ?_
  rw [hown]
  exact List.mem_cons_self

end Traced

/-- What a change knows of the calls of a future about which something has happened before. -/
theorem State.Change.called_of_known {s s' : State m σ} (t : Traced s) {move : Move} (h : State.Change b s move s')
    {e : Event} (he : e ∈ s.history) {u : Task} (hc : .called e.future u ∈ s'.history) :
    .called e.future u ∈ s.history := by
  obtain ⟨es, hh, hes⟩ := h.events
  rw [hh, List.mem_append] at hc
  refine hc.resolve_left fun hnew => ?_
  rcases hes with ⟨-, v, rfl⟩ | ⟨-, hes⟩
  · injection List.mem_singleton.1 hnew with hmade _
    exact absurd (t.known e he) (by omega)
  · exact (hes _ hnew).1 _ u rfl

end ClientAuth.Interleaving
