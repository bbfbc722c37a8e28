import ClientAuth.Proofs.Interleaving.Enrolling
import ClientAuth.Proofs.Interleaving.SingleFlight
import ClientAuth.Proofs.Interleaving.Succession

/-!
# What a failure leaves behind

A call of obtain that is refused does nothing at all (`Inert`). An exchange that fails comes to its end through one last
removal; nobody else fills the slot or saves an entry while it holds the guard, so that at its end the slot has neither a
credential nor a guard, and there is no entry if that removal has succeeded (`Undone`). A clear gives the credential up
before it tries to remove the entry, so that whatever comes of the removal, what is in the slot later was begun after the
first step of the clear (`Renewed`).
-/

namespace ClientAuth

/-- A failure to which a call of obtain comes that begins no exchange. -/
def AuthError.IsRefusal (e : AuthError) : Prop := e = .busy ∨ ∃ problem, e = .invalidArgument problem

namespace Interleaving

variable {m : Manager} {σ : Type} {b : Backing σ} {view : σ → String → Option String}

/-! ## Refused calls -/

/-- A future that was made for a refused call has yet to be polled. -/
theorem Traced.phase_of_refused {s : State m σ} (ht : Traced s) {i : Nat} {e : AuthError}
    (hc : .called i (.refused e) ∈ s.history) {f : Future m} (hf : s.futures i = some f) :
    f.phase = .unanswered (.refused e) := (ht.live i f hf).eq_of_refused ((mem_own rfl).2 hc)

/-- Calls of obtain are refused for their parameters or since an exchange is in progress, and a refused one asks nothing
of the service or of the store. -/
structure Inert (s : State m σ) : Prop where
  reason : ∀ i e, .called i (.refused e) ∈ s.history → e.IsRefusal
  quiet : ∀ i e, .called i (.refused e) ∈ s.history → ∀ c a, .performed i c a ∉ s.history

namespace Inert

variable {s s' : State m σ}

theorem new (store : σ) (nonces : Nonces) : Inert (State.new store nonces : State m σ) := by
  refine ⟨?_, ?_⟩ <;> simp [State.new]

theorem change_reason (n : Inert s) {move : Move} (h : State.Change b s move s') {i : Nat} {e : AuthError}
    (hc : .called i (.refused e) ∈ s'.history) : e.IsRefusal := by
  cases h with
  | refuses he =>
    rw [State.add, List.mem_cons] at hc
    rcases hc with hnew | hold
    · injection hnew with _ hnew
      injection hnew with hnew
      subst hnew
      rcases he with ⟨problem, -, rfl⟩ | ⟨-, -, rfl⟩
      · exact Or.inr ⟨problem, rfl⟩
      · exact Or.inl rfl
    · exact n.reason i e hold
  | still => exact n.reason i e hc
  | begins _ _ => exact n.reason i e (by simpa [State.add] using hc)
  | asksClear => exact n.reason i e (by simpa [State.add] using hc)
  | asksRestore => exact n.reason i e (by simpa [State.add] using hc)
  | performs _ => exact n.reason i e (by simpa [State.perform] using hc)
  | aborts _ _ => exact n.reason i e hc
  | drops _ => exact n.reason i e (by simpa [State.abandon] using hc)
  | cutsOff _ _ => exact n.reason i e (by simpa using hc)
  | polls _ _ _ => exact n.reason i e (((State.mem_ran_history (by simp)).1 hc).resolve_left (by simp))

/-- Whoever has a call performed waits for it, as no refused call of obtain ever does. -/
theorem change_quiet (ht : Traced s) (n : Inert s) {move : Move} (h : State.Change b s move s') {i : Nat}
    {e : AuthError} (hc : .called i (.refused e) ∈ s'.history) (c : Call) (a : c.Answer) :
    .performed i c a ∉ s'.history := by
  intro hp
  have hold : .performed i c a ∉ s.history := by
    intro hp
    exact n.quiet i e (h.called_of_known ht hp hc) c a hp
  rcases h.store_cases with ⟨-, es, hh, hes⟩ | ⟨j, w, stage, aborted, hf, rfl⟩
  · rw [hh, List.mem_append] at hp
    exact hp.elim (hes i c a) hold
  · rw [State.perform_history, List.mem_cons] at hp hc
    rcases hp with hnew | hp
    · injection hnew with hij
      subst hij
      cases ht.phase_of_refused (hc.resolve_left (by simp)) hf
    · exact hold hp

theorem change (ht : Traced s) (n : Inert s) {move : Move} (h : State.Change b s move s') : Inert s' where
  reason _ _ hc := n.change_reason h hc
  quiet _ _ hc := n.change_quiet ht h hc

/-- In every interleaving refused calls come to nothing. -/
theorem run (b : Backing σ) (store : σ) (nonces : Nonces) (moves : List Move) :
    Inert ((State.new store nonces : State m σ).run b moves) :=
  State.new_run_induction (new store nonces)
    (fun moves _ n => n.change (Traced.run b store nonces moves) (State.step_change b _ _)) moves

end Inert

/-- A call of obtain that is refused leaves the slot and the store as they are. -/
theorem step_of_refused {s : State m σ} {p : Enrollment.Params} {e : AuthError}
    (he : (Exchange.begin p s.slot).1 = .error e) : s.step b (.obtain p) = s.add (.refused e) := by
  rcases State.begin_cases p s.slot with ⟨e', hb, -⟩ | ⟨-, -, hb⟩
  · rw [hb] at he
    obtain rfl : e' = e := Except.error.inj he
    simp only [State.step, hb]
    rfl
  · rw [hb] at he
    cases he

/-- Whatever is done with a refused call of obtain leaves the slot and the store as they are. -/
theorem frame_of_refused {s : State m σ} (ht : Traced s) {i : Nat} {e : AuthError}
    (hc : .called i (.refused e) ∈ s.history) {move : Move} (hm : move.future? = some i) :
    (s.step b move).slot = s.slot ∧ (s.step b move).store = s.store := by
  constructor
  · refine slot_of_idle (fun f hf => ?_) hm
    rw [ht.phase_of_refused hc hf]
    exact ⟨rfl, by simp [Phase.task], by simp [Phase.task]⟩
  · have h := s.step_change b move
    generalize s.step b move = s' at h
    cases h with
    | performs hf =>
      cases hm
      cases ht.phase_of_refused hc hf
    | begins _ _ => cases hm
    | polls _ _ _ => exact State.settle_store _ _
    | still => rfl
    | refuses _ => rfl
    | asksClear => rfl
    | asksRestore => rfl
    | aborts _ _ => rfl
    | drops _ => rfl
    | cutsOff _ _ => rfl

/-- An exchange gives up at a phase of its own. -/
theorem Cause.exchange? {x : Exchange} {s : Scene} {f : Phase m} {e : AuthError} (h : Cause m x s f e) :
    f.task.exchange? = some x := by
  cases h <;> rfl

/-- The failure that an exchange met is no refusal. -/
theorem OwnFailure.not_refusal {h : List Event} {i : Nat} {e : AuthError} (hf : OwnFailure m h i e) :
    ¬e.IsRefusal := by
  intro he
  cases hf with
  | nonce _ => simp [AuthError.IsRefusal] at he
  | enroll _ => simp [AuthError.IsRefusal] at he
  | rejected _ _ _ ha =>
    rcases Config.accept_error_cases ha with ⟨cause, rfl⟩ | ⟨reason, rfl⟩
    · simp [AuthError.IsRefusal] at he
    · simp [AuthError.IsRefusal] at he
  | save _ => simp [AuthError.IsRefusal] at he

/-- An exchange that was begun fails in another way than a refused call. -/
theorem Finish.not_refusal {i : Nat} {x : Exchange} {e : AuthError} {es : List Event}
    (hf : Finish m i (.error e) (.resolved i (.error e) :: es)) (hx : .called i (.exchange x) ∈ es) :
    ¬e.IsRefusal := by
  obtain ⟨f, es', s, s', rfl, hc, hx', hr⟩ := hf.course hx
  by_cases he : e = .cancelled
  · simp [he, AuthError.IsRefusal]
  · exact (hc.ownFailure_of_finished hx' hr he).not_refusal

/-! ## Removals of an exchange -/

/-- What the removals of a future were answered with, newest first. -/
def removals (i : Nat) (h : List Event) : List (Except VaultError Unit) :=
  h.filterMap fun
    | .performed j (.remove _) a => if j = i then some a else none
    | _ => none

theorem removals_own (i : Nat) (h : List Event) : removals i (own i h) = removals i h := by
  unfold removals own
  rw [List.filterMap_filter]
  refine List.filterMap_congr ?_
  intro e _
  cases e with
  | performed j c a => cases c <;> by_cases hj : j = i <;> simp [Event.future, hj]
  | called j t => simp
  | ran j t now => simp
  | abandoned j => simp
  | resolved j o => simp

/-- Whether a task waits for a removal. -/
def Task.Removes (m : Manager) (t : Task) : Prop := ∃ stage key, t = .waiting stage ∧ stage.call m = .remove key

/-- An exchange of a manager without a store removes nothing. -/
theorem Course.no_removal {i : Nat} {f : Phase m} {es : List Event} (hc : Course m i f es) (hm : m.cipher = none)
    {x : Exchange} (hx : f.task.exchange? = some x) : ¬Task.Removes m f.task ∧ removals i es = [] := by
  induction hc with
  | made ht =>
    refine ⟨?_, rfl⟩
    rintro ⟨stage, key, he, -⟩
    exact ht stage he
  | @performed stage es a _ ih =>
    obtain ⟨hnot, hnone⟩ := ih hx
    refine ⟨hnot, ?_⟩
    cases stage with
    | removingOld y => exact absurd ⟨_, _, rfl, rfl⟩ hnot
    | cleaningUp y e => exact absurd ⟨_, _, rfl, rfl⟩ hnot
    | fetchingNonce y => exact hnone
    | enrolling y request => exact hnone
    | saving y c blob => exact hnone
    | removing => cases hx
    | loading g => cases hx
    | discarding e => cases hx
  | @ran f es s s' stage hc hr ih =>
    have hx' : f.task.exchange? = some x := by
      rw [Task.exchange?_iff_origin, ← run?_origin hr, ← Task.exchange?_iff_origin]
      exact hx
    obtain ⟨hnot, hnone⟩ := ih hx'
    refine ⟨?_, hnone⟩
    rintro ⟨stage', key, he, hcall⟩
    obtain rfl := Task.waiting.inj he
    cases run?_turn hx' hr with
    | removes hsome =>
      rw [hm] at hsome
      cases hsome
    | givesUp hsome _ _ =>
      rw [hm] at hsome
      cases hsome
    | starts _ => cases hcall
    | removed a => cases hcall
    | asks nonce => cases hcall
    | seals _ _ _ => cases hcall

/-- Once the last removal of an exchange has succeeded there is no entry, until the exchange ends. -/
def Emptied (view : σ → String → Option String) (s : State m σ) : Prop :=
  ∀ i f x e, s.futures i = some f → f.phase = .answered (.cleaningUp x e) (Except.ok ()) →
    view s.store m.config.storageKey = none

/-- While an exchange waits for the poll that ends it, nobody saves an entry. -/
theorem Emptied.change {s s' : State m σ} (g : Guarded s) (hb : b.Lawful view) (hw : b.Tame view) (E : Emptied view s)
    {move : Move} (h : State.Change b s move s') : Emptied view s' := by
  intro i f x e hf hp
  obtain ⟨phase, aborted⟩ := f
  have ha : Arrival b s s' i phase := h.arrival g hf
  cases ha with
  | made _ _ _ => cases hp
  | ran _ _ _ => cases hp
  | @performed w stage aborted' hl hs =>
    injection hp with hstage hanswer
    subst hstage hs
    exact view_answer hb w s.store (.cleaningUp x e) (eq_of_heq hanswer)
  | @stays f hl _ =>
    have hempty : view s.store m.config.storageKey = none := E i f x e hl hp
    rcases h.store_cases with ⟨hst, -⟩ | ⟨j, w, stage, aborted', hj, rfl⟩
    · rw [hst]
      exact hempty
    · rcases view_tame hw w s.store stage with ⟨y, c, blob, rfl, -⟩ | hgone | hstill
      -- who saves an entry holds the guard, and the exchange that has removed its own still does
      · have hlive : s.exchange? i = some x := by
          rw [State.exchange?_of_future hl]
          exact congrArg (fun p => Task.exchange? (Phase.task p)) hp
        obtain rfl : j = i := g.unique (State.exchange?_of_future hj) hlive
        obtain rfl := Option.some.inj (hl.symm.trans hj)
        cases hp
      · exact hgone
      · exact hstill.trans hempty

/-- In every interleaving there is no entry between the last removal of an exchange, if it succeeds, and its end. -/
theorem Emptied.run (hb : b.Lawful view) (hw : b.Tame view) (store : σ) (nonces : Nonces) (moves : List Move) :
    Emptied view ((State.new store nonces : State m σ).run b moves) := by
  refine State.new_run_induction ?_ ?_ moves
  · intro i f x e hf
    cases hf
  · intro moves move E
    exact E.change (Guarded.run b store nonces moves) hb hw (State.step_change b _ _)

/-- An exchange that was driven to its end and has failed leaves neither a credential nor a guard, and no entry if its
last removal has succeeded. -/
def Undone (view : σ → String → Option String) (s : State m σ) : Prop :=
  ∀ i x e h, .called i (.exchange x) ∈ h → s.history = .resolved i (.error e) :: h → .abandoned i ∉ h →
    s.slot.credential = none ∧ s.slot.inFlight = none ∧
      ((removals i h).head? = some (.ok ()) → view s.store m.config.storageKey = none)

namespace Undone

variable {s s' : State m σ}

/-- The poll with which an exchange fails finds no entry if its last removal has succeeded. -/
theorem view_of_finished (ht : Traced s) (E : Emptied view s) {i : Nat} {f : Future m} (hf : s.futures i = some f)
    {x : Exchange} {e : AuthError} {now : Instant} {s₁ : Scene}
    (hturn : Turn m x (s.scene now) f.phase (.finished (.error e), s₁))
    (hlast : (removals i s.history).head? = some (.ok ())) : view s.store m.config.storageKey = none := by
  have hc := ht.live i f hf
  rw [← removals_own] at hlast
  obtain ⟨phase, aborted⟩ := f
  simp only at hturn hc
  cases hturn with
  | fails hm hcause _ =>
    rw [(hc.no_removal hm hcause.exchange?).2] at hlast
    cases hlast
  | ends e' a _ =>
    obtain ⟨es, hown, -⟩ := hc.of_answered
    have hhead : removals i (own i s.history) = a :: removals i es := by
      rw [hown]
      simp [removals, Stage.call]
    rw [hhead, List.head?_cons] at hlast
    obtain rfl : a = .ok () := Option.some.inj hlast
    exact E i _ x e' hf rfl

theorem change (g : Guarded s) (ht : Traced s) (v : Vacant s) (E : Emptied view s) (u : Undone view s) {move : Move}
    (h : State.Change b s move s') : Undone view s' := by
  intro i x e past hc hh hn
  have hstore : s'.store = s.store := by
    rcases h.store_cases with ⟨hst, -⟩ | ⟨j, w, stage, aborted, -, rfl⟩
    · exact hst
    · rw [State.perform_history] at hh
      cases hh
  rw [hstore]
  rcases h.resolved_cases hh with ⟨hold, hslot⟩ | ⟨ha, -⟩ | ⟨f, now, s₁, hf, hr, rfl, hslot⟩
  · rw [hslot]
    exact u i x e past hc hold hn
  · exact absurd ha hn
  · have hc' : .called i (.exchange x) ∈ s.history := by simpa using hc
    have hx : s.exchange? i = some x := (g.exchange_iff i x).2 ⟨hc', g.not_ended hf⟩
    have hheld : s.slot.inFlight = some x.ticket := g.held i x hx
    have hturn := run?_turn (State.exchange?_of_future hf ▸ hx) hr
    have hreleased : s₁.slot = s.slot.release x.ticket := by
      rcases hturn.finished (fun stage => g.honest i f stage hf) with ⟨e', -, -, hs⟩ | ⟨c, ho, -⟩
      · exact hs
      · cases ho
    rw [hslot, hreleased]
    refine ⟨?_, g.release_inFlight hx, ?_⟩
    · rw [release_credential]
      exact v x.ticket hheld
    · intro hlast
      exact view_of_finished ht E hf hturn hlast

/-- In every interleaving an exchange that fails undoes what it has done. -/
theorem run (hb : b.Lawful view) (hw : b.Tame view) (store : σ) (nonces : Nonces) (moves : List Move) :
    Undone view ((State.new store nonces : State m σ).run b moves) := by
  refine State.new_run_induction ?_ ?_ moves
  · intro i x e h _ hh
    cases hh
  · intro moves move u
    exact u.change (Guarded.run b store nonces moves) (Traced.run b store nonces moves)
      (Vacant.run b store nonces moves) (Emptied.run hb hw store nonces moves) (State.step_change b _ _)

end Undone

/-! ## After the first step of a clear -/

/-- A credential of after the first step of a clear: it was issued to an exchange that was called since, or a restore
that began since has loaded it. -/
def Renews (m : Manager) (h : List Event) (k : Nat) (now : Instant) (c : Credential) : Prop :=
  (∃ i x, Before h (.ran k .clear now) (.called i (.exchange x)) ∧ Issued m h i c) ∨
  ∃ j now' blob, Before h (.ran k .clear now) (.ran j .restore now') ∧ .loaded m j blob ∈ h ∧
    m.revealed (some blob) = .ok (some c)

theorem Renews.mono {h h' : List Event} {k : Nat} {now : Instant} {c : Credential} (hr : Renews m h k now c)
    (hs : h <:+ h') : Renews m h' k now c := by
  rcases hr with ⟨i, x, hb, hi⟩ | ⟨j, now', blob, hb, hl, hrev⟩
  · exact Or.inl ⟨i, x, hb.mono hs, hi.mono hs⟩
  · exact Or.inr ⟨j, now', blob, hb.mono hs, hs.subset hl, hrev⟩

/-- Once a clear has had its first step, the slot has no credential but one that came since. -/
def Renewed (s : State m σ) : Prop :=
  ∀ k now c, .ran k .clear now ∈ s.history → s.slot.credential = some c → Renews m s.history k now c

/-- A current exchange was called, and a restore in time was begun, after every clear that has had its first step. -/
theorem Renewed.change {s s' : State m σ} (g : Guarded s) (ht : Traced s) (t : Timely s) (R : Renewed s) {move : Move}
    (h : State.Change b s move s') : Renewed s' := by
  intro k now c hk' hc
  have hs := h.history_suffix
  obtain ⟨hran, hcases⟩ := h.credential_cases g hc
  have hk : .ran k .clear now ∈ s.history := hran k now hk'
  rcases hcases with hold | ⟨i, f, now', x, hf, hx, hcur, hy, hyields⟩ | ⟨j, f, blob, hf, hp, hrev⟩
  · exact (R k now c hk hold).mono hs
  · have hlive : s.exchange? i = some x := (State.exchange?_of_future hf).trans hx
    have hbefore := t.called_since g hlive hcur hk
    exact Or.inl ⟨i, x, hbefore.mono hs, ht.issued_of_yield hf hy hyields⟩
  · have hloading : f.phase.task = .waiting (.loading s.slot.generation) := by
      rw [hp]
      rfl
    obtain ⟨now', hbefore⟩ := t.restored_since ht hf hloading hk
    have hloaded : .loaded m j blob ∈ s.history := ht.performed_of_answered hf hp
    exact Or.inr ⟨j, now', blob, hbefore.mono hs, hs.subset hloaded, hrev⟩

/-- In every interleaving what is in the slot came after every clear that has had its first step. -/
theorem Renewed.run (b : Backing σ) (store : σ) (nonces : Nonces) (moves : List Move) :
    Renewed ((State.new store nonces : State m σ).run b moves) := by
  refine State.new_run_induction ?_ ?_ moves
  · intro k now c hk
    cases hk
  · intro moves move R
    exact R.change (Guarded.run b store nonces moves) (Traced.run b store nonces moves)
      (Timely.run b store nonces moves) (State.step_change b _ _)

/-- The first step of a clear gives the credential up, and makes the outcome of an exchange in flight unwanted. -/
theorem State.Change.slot_of_clear {s s' : State m σ} {move : Move} (h : State.Change b s move s') {k : Nat}
    {now : Instant} (hk : .ran k .clear now ∈ s'.history) (hn : .ran k .clear now ∉ s.history) :
    s'.slot = s.slot.clear := by
  obtain ⟨f, run, -, htask, hr, hslot, -⟩ := h.ran_new hk hn
  have hx : f.phase.task.exchange? = none := by
    rw [htask]
    rfl
  rw [hslot]
  rcases (run?_sideTurn hx hr).slot with ⟨hother, -⟩ | ⟨-, hcleared⟩ | ⟨blob, c, -, -, hp, -⟩
  · exact absurd htask hother
  · exact hcleared
  · rw [hp] at htask
    cases htask

/-- A clear whose removal fails has had its first step. -/
theorem Finish.ran_of_remains {k : Nat} {cause : VaultError} {es : List Event}
    (hf : Finish m k (.error (.vault .removing cause)) es) (hc : .called k .clear ∈ es) :
    ∃ now, .ran k .clear now ∈ es := by
  obtain ⟨f, es', s, s', rfl, hcourse, hr⟩ := hf
  have ho : f.task.origin = .clear := ((hcourse.called_iff _).1 (by simpa using hc)).symm
  have hx : f.task.exchange? = none := Task.exchange?_eq_none (by simp [ho])
  cases f with
  | unanswered t =>
    cases t with
    | clear =>
      cases run?_sideTurn hx hr
    | waiting stage => cases hr
    | refused e => cases ho
    | exchange x => cases ho
    | restore => cases ho
  | answered stage a =>
    cases stage with
    | removing =>
      obtain ⟨es₁, rfl, hc₁⟩ := hcourse.of_answered
      obtain ⟨now, hran⟩ := hc₁.ran_of_removing
      exact ⟨now, List.mem_cons_of_mem _ (List.mem_cons_of_mem _ (List.mem_cons_of_mem _ hran))⟩
    | _ => cases ho

/-- A call of obtain that fails as refused calls do was refused. -/
theorem Traced.refused_of_isRefusal {s : State m σ} (ht : Traced s) {i : Nat} {begun : Except AuthError Exchange}
    {e : AuthError} (hc : .called i (.ofBegun begun) ∈ s.history) (ho : .resolved i (.error e) ∈ s.history)
    (he : e.IsRefusal) : begun = .error e := by
  have hfinish : Finish m i (.error e) (own i s.history) := by
    refine (ht.resolved i _ ho).resolve_right ?_
    rintro ⟨-, hcancelled⟩
    rw [Except.error.inj hcancelled] at he
    simp [AuthError.IsRefusal] at he
  have hc : .called i (.ofBegun begun) ∈ own i s.history := (mem_own rfl).2 hc
  cases begun with
  | error e' => rw [Except.error.inj (hfinish.eq_of_refused hc)]
  | ok x =>
    obtain ⟨es, hown⟩ : ∃ es, own i s.history = .resolved i (.error e) :: es := by
      obtain ⟨f, es, s₁, s₂, hown, -⟩ := hfinish
      exact ⟨_, hown⟩
    rw [hown] at hfinish hc
    exact absurd he (hfinish.not_refusal (List.mem_of_ne_of_mem (by simp) hc))

/-- A call of obtain that was driven to its end and has failed, but not as refused calls do, began an exchange. -/
theorem Inert.began_of_not_refusal {s : State m σ} (ht : Traced s) (n : Inert s) {i : Nat}
    {begun : Except AuthError Exchange} {e : AuthError} {h : List Event} (hc : .called i (.ofBegun begun) ∈ h)
    (hh : s.history = .resolved i (.error e) :: h) (hn : .abandoned i ∉ h) (he : ¬e.IsRefusal) :
    ∃ x, begun = .ok x := by
  cases begun with
  | ok x => exact ⟨x, rfl⟩
  | error e' =>
    have hc' : .called i (.refused e') ∈ s.history := by
      rw [hh]
      exact List.mem_cons_of_mem _ hc
    have ho : .resolved i (.error e) ∈ s.history := by
      rw [hh]
      exact List.mem_cons_self
    have hn' : .abandoned i ∉ s.history := by
      rw [hh]
      simpa using hn
    have heq : e = e' := Except.error.inj (ht.eq_of_refused hc' ho hn')
    exact absurd (n.reason i e' hc') (heq ▸ he)

/-- A failure leaves nothing half done, in any interleaving with failures of the store, which is tame. A call of obtain
that is refused, for its parameters or since an exchange is in progress, leaves the slot and the store as they are, and
asks nothing of the service or of the store; no other call fails in these ways. A call that is driven to its end and
fails in any other way leaves the slot without a credential and without a guard, and no entry if its last removal has
succeeded. A clear whose removal fails has had its first step, which clears the slot; from that on, whatever comes of the
removal, the slot has no credential but one that came since, no exchange from before writes it or ends but as cancelled,
and the clear itself leaves the slot alone. What was dropped does nothing more. -/
theorem failures_leave_nothing (hb : b.Lawful view) (hw : b.Tame view) (store : σ) (nonces : Nonces)
    (moves : List Move) :
    let s : State m σ := (State.new store nonces).run b moves
    (∀ p e, (Exchange.begin p s.slot).1 = .error e → .called s.made (.refused e) ∈ (s.step b (.obtain p)).history ∧
      (s.step b (.obtain p)).slot = s.slot ∧ (s.step b (.obtain p)).store = s.store) ∧
    (∀ i e, .called i (.refused e) ∈ s.history → (∀ c a, .performed i c a ∉ s.history) ∧
      ∀ move, move.future? = some i → (s.step b move).slot = s.slot ∧ (s.step b move).store = s.store) ∧
    (∀ i begun e, .called i (.ofBegun begun) ∈ s.history → .resolved i (.error e) ∈ s.history →
      (e = .busy ∨ ∃ problem, e = .invalidArgument problem) → begun = .error e) ∧
    (∀ i begun e h, .called i (.ofBegun begun) ∈ h → s.history = .resolved i (.error e) :: h → .abandoned i ∉ h →
      ¬(e = .busy ∨ ∃ problem, e = .invalidArgument problem) →
      s.slot.credential = none ∧ s.slot.inFlight = none ∧ s.guard? i = none ∧
        ((removals i h).head? = some (.ok ()) → view s.store m.config.storageKey = none)) ∧
    (∀ k cause, .called k .clear ∈ s.history → .resolved k (.error (.vault .removing cause)) ∈ s.history →
      ∃ now, .ran k .clear now ∈ s.history) ∧
    (∀ k now move, .ran k .clear now ∉ s.history → .ran k .clear now ∈ (s.step b move).history →
      (s.step b move).slot = s.slot.clear) ∧
    (∀ k now, .ran k .clear now ∈ s.history →
      (s.slot.credential = none ∨ ∃ c, s.slot.credential = some c ∧ Renews m s.history k now c) ∧
      (∀ i x, Before s.history (.called i (.exchange x)) (.ran k .clear now) →
        (∀ move, move.future? = some i → (s.step b move).slot.credential = s.slot.credential) ∧
        ∀ o h, s.history = .resolved i o :: h → .abandoned i ∉ h → o = .error .cancelled) ∧
      ∀ move, move.future? = some k → (s.step b move).slot = s.slot) ∧
    (∀ i, .abandoned i ∈ s.history → ∀ move, move.future? = some i → s.step b move = s) := by
  intro s
  have g : Guarded s := Guarded.run b store nonces moves
  have ht : Traced s := Traced.run b store nonces moves
  have t : Timely s := Timely.run b store nonces moves
  have l : Landed s := Landed.run b store nonces moves
  have n : Inert s := Inert.run b store nonces moves
  have u : Undone view s := Undone.run hb hw store nonces moves
  have R : Renewed s := Renewed.run b store nonces moves
  refine ⟨?begun, ?refused, ?told, ?failed, ?remains, ?clears, ?cleared, ?dropped⟩
  case begun =>
    intro p e he
    rw [step_of_refused he]
    exact ⟨List.mem_cons_self, rfl, rfl⟩
  case refused =>
    intro i e hc
    exact ⟨n.quiet i e hc, fun move hm => frame_of_refused ht hc hm⟩
  case told =>
    intro i begun e hc ho he
    exact ht.refused_of_isRefusal hc ho he
  case failed =>
    intro i begun e h hc hh hn he
    obtain ⟨x, rfl⟩ := n.began_of_not_refusal ht hc hh hn he
    have hended : Ended i s.history := by
      rw [hh]
      exact Or.inr ⟨_, List.mem_cons_self⟩
    have hguard : s.guard? i = none := by
      rw [State.guard?_eq, State.exchange?, g.gone i hended]
      rfl
    obtain ⟨hcredential, hidle, hentry⟩ := u i x e h hc hh hn
    exact ⟨hcredential, hidle, hguard, hentry⟩
  case remains =>
    intro k cause hc ho
    have hfinish := (ht.resolved k _ ho).resolve_right fun h => by cases h.2
    obtain ⟨now, hran⟩ := hfinish.ran_of_remains ((mem_own rfl).2 hc)
    exact ⟨now, (mem_own rfl).1 hran⟩
  case clears =>
    intro k now move hn hk
    exact (s.step_change b move).slot_of_clear hk hn
  case cleared =>
    intro k now hk
    refine ⟨?_, ?_, fun move hm => slot_of_ran_clear ht hk hm⟩
    · cases hc : s.slot.credential with
      | none => exact Or.inl rfl
      | some c => exact Or.inr ⟨c, rfl, R k now c hk hc⟩
    · intro i x hbefore
      refine ⟨fun move hm => credential_of_superseded g t hbefore hm, ?_⟩
      intro o h hh hn
      rw [hh, before_cons, or_iff_left (by simp)] at hbefore
      exact (l i x o h hbefore.mem.1 hh hn).1.2 ⟨k, now, hbefore⟩
  case dropped =>
    intro i ha move hm
    exact (s.step_change b move).eq_of_gone hm (g.gone i (Or.inl ha))

/-- An exchange that finds an entry of a former manager and gets no nonce. -/
theorem failures_leave_nothing_unanswered :
    let m : Manager := ⟨{}, .never, some (.ofPassword .aes256Gcm "password")⟩
    let w : Weather := ⟨.error .cancelled, .error .cancelled, {}⟩
    let s : State m Entries := (State.new (Entries.empty.insert m.config.storageKey "entry") (.ofList [])).run .memory
      (.obtain { publicKey := [4] } :: drive 0 [(w, ⟨0, 0⟩), (w, ⟨0, 0⟩), (w, ⟨0, 0⟩), (w, ⟨0, 0⟩)])
    s.history.head? = some (.resolved 0 (.error (.transport .cancelled))) ∧
      s.slot.credential = none ∧ s.slot.inFlight = none ∧ s.store.get? m.config.storageKey = none := by
  intro m w s
  let x : Exchange := ⟨1, { publicKey := [4] }⟩
  have hh : s.history = [.resolved 0 (.error (.transport .cancelled)),
      .ran 0 (.waiting (.cleaningUp x (.transport .cancelled))) ⟨0, 0⟩, .removed m 0,
      .ran 0 (.waiting (.fetchingNonce x)) ⟨0, 0⟩, .performed 0 .fetchNonce (Except.error .cancelled),
      .ran 0 (.waiting (.removingOld x)) ⟨0, 0⟩, .removed m 0, .ran 0 (.exchange x) ⟨0, 0⟩,
      .called 0 (.exchange x)] := rfl
  have hfailed := (failures_leave_nothing Backing.memory_lawful Backing.memory_tame
    (Entries.empty.insert m.config.storageKey "entry") (.ofList [])
    (.obtain { publicKey := [4] } :: drive 0 [(w, ⟨0, 0⟩), (w, ⟨0, 0⟩), (w, ⟨0, 0⟩), (w, ⟨0, 0⟩)])).2.2.2.1
    0 (.ok x) (.transport .cancelled) _ (by simp [Task.ofBegun]) hh (by simp [Event.removed]) (by simp)
  refine ⟨by rw [hh]; rfl, hfailed.1, hfailed.2.1, hfailed.2.2.2 rfl⟩

end Interleaving

end ClientAuth
