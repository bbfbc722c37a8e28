import ClientAuth.Proofs.Interleaving.Progress
import ClientAuth.Proofs.Interleaving.Supersession

/-!
# What comes of an enrollment

An exchange asks the service for a nonce and sends it one request, and looks at the clock once, when it takes the
answer (`Asked`). Driven to its end, and unless a clear supersedes it or its save fails, it succeeds exactly if the
enrollment is trustworthy, with exactly the credential that the enrollment makes. Six rounds of performing and polling
drive a future to its end from anywhere.
-/

namespace ClientAuth.Interleaving

open Enrollment (Params Request Response TransportError)

variable {m : Manager} {σ : Type} {b : Backing σ}

/-- The calls on the service that were performed for a future, newest first. -/
def serviceCalls (i : Nat) (h : List Event) : List Event :=
  h.filter fun
    | .performed j .fetchNonce _ | .performed j (.enroll _) _ => j = i
    | _ => false

/-- What the clock showed when a future took the answers to its requests, newest first. -/
def readings (i : Nat) (h : List Event) : List Instant :=
  h.filterMap fun
    | .ran j (.waiting (.enrolling _ _)) now => if j = i then some now else none
    | _ => none

/-- An exchange was given a nonce, and then the answer to its one request; the clock showed this time when it took the
answer. -/
structure Asked (i : Nat) (p : Params) (n : String) (r : Response) (now : Instant) (h : List Event) : Prop where
  calls : serviceCalls i h =
    [.performed i (.enroll (.ofParams n p)) (Except.ok r), .performed i .fetchNonce (Except.ok n)]
  reading : readings i h = [now]

theorem serviceCalls_own (i : Nat) (h : List Event) : serviceCalls i (own i h) = serviceCalls i h := by
  unfold serviceCalls own
  rw [List.filter_filter]
  refine List.filter_congr fun e _ => ?_
  cases e with
  | performed j c a => cases c <;> by_cases hj : j = i <;> simp [Event.future, hj]
  | called j t => rfl
  | ran j t now => rfl
  | abandoned j => rfl
  | resolved j o => rfl

theorem readings_own (i : Nat) (h : List Event) : readings i (own i h) = readings i h := by
  unfold readings own
  rw [List.filterMap_filter]
  refine List.filterMap_congr fun e _ => ?_
  cases e with
  | ran j t now =>
    cases t with
    | waiting stage => cases stage <;> by_cases hj : j = i <;> simp [Event.future, hj]
    | _ => simp
  | called j t => simp
  | performed j c a => simp
  | abandoned j => simp
  | resolved j o => simp

theorem asked_own {i : Nat} {p : Params} {n : String} {r : Response} {now : Instant} {h : List Event} :
    Asked i p n r now (own i h) ↔ Asked i p n r now h := by
  constructor
  · rintro ⟨hc, hr⟩
    exact ⟨serviceCalls_own i h ▸ hc, readings_own i h ▸ hr⟩
  · rintro ⟨hc, hr⟩
    exact ⟨(serviceCalls_own i h).trans hc, (readings_own i h).trans hr⟩

namespace Asked

variable {i : Nat} {p : Params} {n : String} {r : Response} {now : Instant} {h : List Event}

/-- The service gave no other nonce, and did not fail to. -/
theorem nonce_eq (ha : Asked i p n r now h) {a : Except TransportError String}
    (hm : .performed i .fetchNonce a ∈ h) : a = .ok n := by
  have hc : Event.performed i .fetchNonce a ∈ serviceCalls i h := List.mem_filter.2 ⟨hm, by simp⟩
  rw [ha.calls, List.mem_cons, List.mem_singleton] at hc
  rcases hc with hc | hc
  · cases hc
  · cases hc
    rfl

/-- The service gave no other answer to a request, and did not fail to. -/
theorem response_eq (ha : Asked i p n r now h) {request : Request} {a : Except TransportError Response}
    (hm : .performed i (.enroll request) a ∈ h) : a = .ok r := by
  have hc : Event.performed i (.enroll request) a ∈ serviceCalls i h := List.mem_filter.2 ⟨hm, by simp⟩
  rw [ha.calls, List.mem_cons, List.mem_singleton] at hc
  rcases hc with hc | hc
  · cases hc
    rfl
  · cases hc

/-- The clock was not looked at for an answer at another time. -/
theorem now_eq (ha : Asked i p n r now h) {x : Exchange} {request : Request} {now' : Instant}
    (hm : .ran i (.waiting (.enrolling x request)) now' ∈ h) : now' = now := by
  have hc : now' ∈ readings i h := List.mem_filterMap.2 ⟨_, hm, by simp⟩
  rw [ha.reading, List.mem_singleton] at hc
  exact hc

/-- What was issued was made of what was asked for. -/
theorem accept_of_issued {m : Manager} (ha : Asked i p n r now h)
    (hp : ∀ x, .called i (.exchange x) ∈ h → x.params = p) {c : Credential} (hi : Issued m h i c) :
    m.config.accept p r now = .ok c := by
  obtain ⟨x, request, r', now', hc, hperf, hran, haccept⟩ := hi
  have hr : r' = r := Except.ok.inj (ha.response_eq hperf)
  rw [hp x hc, hr, ha.now_eq hran] at haccept
  exact haccept

/-- No failure was met if what was asked for is accepted and is saved. -/
theorem not_ownFailure {m : Manager} (ha : Asked i p n r now h)
    (hp : ∀ x, .called i (.exchange x) ∈ h → x.params = p) {c : Credential}
    (haccept : m.config.accept p r now = .ok c)
    (hsaves : ∀ key blob (a : Except VaultError Unit), .performed i (.save key blob) a ∈ h → a = .ok ())
    (e : AuthError) : ¬OwnFailure m h i e := by
  intro hf
  cases hf with
  | nonce hperf => cases ha.nonce_eq hperf
  | enroll hperf => cases ha.response_eq hperf
  | @rejected x request r' now' _ hc hperf hran hrejected =>
    have hr : r' = r := Except.ok.inj (ha.response_eq hperf)
    rw [hp x hc, hr, ha.now_eq hran, haccept] at hrejected
    cases hrejected
  | save hperf => cases hsaves _ _ _ hperf

end Asked

namespace Course

variable {i : Nat} {x : Exchange} {es : List Event}

/-- Before it asks for a nonce, an exchange has asked nothing. -/
theorem asked_of_fetchingNonce (hc : Course m i (.unanswered (.waiting (.fetchingNonce x))) es) :
    serviceCalls i es = [] ∧ readings i es = [] := by
  obtain ⟨f, es₁, s, s', rfl, hc₁, hr⟩ := hc.of_waiting
  rcases run?_fetchingNonce hr with rfl | ⟨a, rfl⟩
  · rw [hc₁.eq_of_start (by simp)]
    exact ⟨rfl, rfl⟩
  · obtain ⟨es₂, rfl, hc₂⟩ := hc₁.of_answered
    obtain ⟨f, es₃, s₁, s₂, rfl, hc₃, hr₃⟩ := hc₂.of_waiting
    obtain rfl := run?_removingOld hr₃
    rw [hc₃.eq_of_start (by simp)]
    exact ⟨rfl, rfl⟩

/-- Before it sends its request, an exchange has only asked for the nonce. -/
theorem asked_of_enrolling {request : Request} (hc : Course m i (.unanswered (.waiting (.enrolling x request))) es) :
    ∃ n, request = .ofParams n x.params ∧ serviceCalls i es = [.performed i .fetchNonce (Except.ok n)] ∧
      readings i es = [] := by
  obtain ⟨f, es₁, s, s', rfl, hc₁, hr⟩ := hc.of_waiting
  obtain ⟨n, rfl, hrequest⟩ := run?_enrolling hr
  obtain ⟨es₂, rfl, hc₂⟩ := hc₁.of_answered
  obtain ⟨hcalls, hreadings⟩ := hc₂.asked_of_fetchingNonce
  refine ⟨n, hrequest, ?_, hreadings⟩
  simp only [serviceCalls] at hcalls ⊢
  simp [Stage.call, hcalls]

/-- The poll that takes the answer to the request has asked the service for all that it gets. -/
theorem asked_of_enrolled {request : Request} {r : Response} (now : Instant)
    (hc : Course m i (.answered (.enrolling x request) (Except.ok r)) es) :
    ∃ n, Asked i x.params n r now (.ran i (.waiting (.enrolling x request)) now :: es) := by
  obtain ⟨es₁, rfl, hc₁⟩ := hc.of_answered
  obtain ⟨n, rfl, hcalls, hreadings⟩ := hc₁.asked_of_enrolling
  refine ⟨n, ?_, ?_⟩
  · simp only [serviceCalls] at hcalls ⊢
    simp [Stage.call, hcalls]
  · simp only [readings] at hreadings ⊢
    simp [hreadings]

/-- What is saved was asked for and accepted. -/
theorem asked_of_saving {c : Credential} {blob : String}
    (hc : Course m i (.unanswered (.waiting (.saving x c blob))) es) :
    ∃ n r now, Asked i x.params n r now es ∧ m.config.accept x.params r now = .ok c := by
  obtain ⟨f, es₁, s, s', rfl, hc₁, hr⟩ := hc.of_waiting
  obtain ⟨request, r, cipher, rfl, ha, -, -⟩ := run?_saving hr
  obtain ⟨n, hasked⟩ := hc₁.asked_of_enrolled s.now
  exact ⟨n, r, s.now, hasked, ha⟩

/-- What an exchange fills the slot with was asked for and accepted. -/
theorem asked_of_yield {f : Phase m} {s : Scene} {c : Credential} (hc : Course m i f es) (hy : Yield m x s f c) :
    ∃ n r now, Asked i x.params n r now (.ran i f.task s.now :: es) ∧ m.config.accept x.params r now = .ok c := by
  cases hy with
  | saved c blob =>
    obtain ⟨es₁, rfl, hc₁⟩ := hc.of_answered
    obtain ⟨n, r, now, hasked, ha⟩ := hc₁.asked_of_saving
    exact ⟨n, r, now, ⟨hasked.calls, hasked.reading⟩, ha⟩
  | unsaved _ ha =>
    obtain ⟨n, hasked⟩ := hc.asked_of_enrolled s.now
    exact ⟨n, _, s.now, hasked, ha⟩

end Course

namespace Finish

variable {i : Nat} {x : Exchange} {o : Outcome} {es : List Event}

/-- An exchange ends by a poll at the end of a course of its own. -/
theorem course (hf : Finish m i o (.resolved i o :: es)) (hx : .called i (.exchange x) ∈ es) :
    ∃ f es' s s', es = .ran i f.task s.now :: es' ∧ Course m i f es' ∧ f.task.exchange? = some x ∧
      f.run? s = some (.finished o, s') := by
  obtain ⟨f, es', s, s', he, hc, hr⟩ := hf
  obtain rfl : es = .ran i f.task s.now :: es' := (List.cons.inj he).2
  exact ⟨f, es', s, s', rfl, hc, (hc.exchange?_iff x).2 (by simpa using hx), hr⟩

/-- An exchange that ends with a credential asked for it, and had it accepted. -/
theorem asked {hd : Option String} (hf : Finish m i (.ok hd) (.resolved i (.ok hd) :: es))
    (hx : .called i (.exchange x) ∈ es) :
    ∃ n r now c, Asked i x.params n r now es ∧ m.config.accept x.params r now = .ok c := by
  obtain ⟨f, es', s, s', rfl, hc, hx', hr⟩ := hf.course hx
  cases run?_turn hx' hr with
  | caches hy _ _ =>
    obtain ⟨n, r, now, hasked, ha⟩ := hc.asked_of_yield hy
    exact ⟨n, r, now, _, hasked, ha⟩

end Finish

/-- An exchange that was driven to its end, that no clear superseded, and whose save did not fail, ended with a
credential exactly if it had asked for one that was accepted, and then the slot has that credential. -/
theorem Landed.outcome {s : State m σ} (t : Traced s) (l : Landed s) {i : Nat} {x : Exchange} {o : Outcome}
    {h : List Event} (hh : s.history = .resolved i o :: h) (hx : .called i (.exchange x) ∈ h)
    (hn : .abandoned i ∉ h) (hclear : ∀ k now, ¬Before h (.called i (.exchange x)) (.ran k .clear now))
    (hsaves : ∀ key blob (a : Except VaultError Unit), .performed i (.save key blob) a ∈ h → a = .ok ()) :
    ((∃ hd, o = .ok hd) → ∃ n r now c, Asked i x.params n r now h ∧ m.config.accept x.params r now = .ok c) ∧
    ∀ n r now c, Asked i x.params n r now h → m.config.accept x.params r now = .ok c →
      o = .ok (some c.headerValue) ∧ s.slot.credential = some c := by
  have hown : own i s.history = .resolved i o :: own i h := by rw [hh, own_cons_self (i := i) (by rfl)]
  have hfinish : Finish m i o (.resolved i o :: own i h) := by
    rw [← hown]
    refine (t.resolved i o (by simp [hh])).resolve_right fun ha => hn ?_
    simpa [hh] using ha.1
  have hx' : .called i (.exchange x) ∈ own i h := (mem_own rfl).2 hx
  obtain ⟨hcancelled, hlanded⟩ := l i x o h hx hh hn
  have ho : o ≠ .error .cancelled := by
    rw [Ne, hcancelled]
    rintro ⟨k, now, hb⟩
    exact hclear k now hb
  constructor
  · rintro ⟨hd, rfl⟩
    obtain ⟨n, r, now, c, hasked, ha⟩ := hfinish.asked hx'
    exact ⟨n, r, now, c, asked_own.1 hasked, ha⟩
  · intro n r now c hasked ha
    have hp : ∀ y, .called i (.exchange y) ∈ h → y.params = x.params := by
      intro y hy
      obtain ⟨f, es, s₁, s₂, he, hc, -⟩ := hfinish
      have hcalled : ∀ z, .called i (.exchange z) ∈ own i h → f.task.exchange? = some z := by
        intro z hz
        rw [(List.cons.inj he).2] at hz
        exact (hc.exchange?_iff z).2 (by simpa using hz)
      have hyx := (hcalled y ((mem_own rfl).2 hy)).symm.trans (hcalled x hx')
      rw [Option.some.inj hyx]
    rcases hlanded ho with ⟨e, -, hmet⟩ | ⟨c', hok, hissued, hslot⟩
    · exact absurd hmet (hasked.not_ownFailure hp ha hsaves e)
    · obtain rfl : c' = c := Except.ok.inj ((hasked.accept_of_issued hp hissued).symm.trans ha)
      exact ⟨hok, hslot⟩

/-- Exactly the trustworthy enrollments are accepted. Let an exchange be called while none is in flight, and come to its
end with no clear since it was called and no failed save. It has a credential exactly if the service gave a nonce, then
an answer to the one request made of it, and that answer is trustworthy at the time when it was taken; the credential is
the one that the answer makes, and the slot has it. Unless it is dropped, six rounds drive it to its end from
anywhere. -/
theorem obtains_exactly_trustworthy (b : Backing σ) (store : σ) (nonces : Nonces) (moves more : List Move)
    (p : Params) (hp : p.problem? = none)
    (hidle : ((State.new store nonces : State m σ).run b moves).slot.inFlight = none) :
    let s₀ : State m σ := (State.new store nonces).run b moves
    let s := (s₀.step b (.obtain p)).run b more
    ∃ x, x.params = p ∧ .called s₀.made (.exchange x) ∈ s.history ∧ (.abandoned s₀.made ∉ s.history →
      (∀ o h, s.history = .resolved s₀.made o :: h →
        (∀ k now, ¬Before h (.called s₀.made (.exchange x)) (.ran k .clear now)) →
        (∀ key blob (a : Except VaultError Unit), .performed s₀.made (.save key blob) a ∈ h → a = .ok ()) →
        ((∃ hd, o = .ok hd) ↔ ∃ n r now c, Asked s₀.made p n r now h ∧ Trustworthy m.config p r now c) ∧
        ∀ n r now c, Asked s₀.made p n r now h → Trustworthy m.config p r now c →
          o = .ok (some (Credential.ofEnrollment m.config r now c).headerValue) ∧
          s.slot.credential = some (Credential.ofEnrollment m.config r now c) ∧
          ((Credential.ofEnrollment m.config r now c).obtainedAt.toNat : Int) = now.secs.toInt) ∧
      ∀ rounds : List (Weather × Instant), 6 ≤ rounds.length →
        ∃ o, .resolved s₀.made o ∈ (s.run b (drive s₀.made rounds)).history) := by
  intro s₀ s
  have hinv : Guarded s ∧ Traced s ∧ Landed s := by
    have hrun : s = (State.new store nonces).run b (moves ++ .obtain p :: more) :=
      (State.run_append moves (.obtain p :: more)).symm
    rw [hrun]
    exact ⟨Guarded.run b store nonces _, Traced.run b store nonces _, Landed.run b store nonces _⟩
  obtain ⟨g, t, l⟩ := hinv
  let x : Exchange := ⟨s₀.slot.generation + 1, p⟩
  have hx : .called s₀.made (.exchange x) ∈ s.history := by
    refine (State.run_history_suffix b _ more).subset ?_
    rw [State.step_obtain_of_idle hp hidle]
    exact List.mem_cons_self
  refine ⟨x, rfl, hx, fun hn => ⟨fun o h hh hclear hsaves => ?_, fun rounds hlen => ?_⟩⟩
  · rw [hh] at hx hn
    have hout := l.outcome t hh (by simpa using hx) (fun hm => hn (List.mem_cons_of_mem _ hm)) hclear hsaves
    simp only [Config.accept_eq_ok_iff] at hout
    obtain ⟨hgot, hgets⟩ := hout
    refine ⟨⟨fun ho => ?_, ?_⟩, fun n r now c hasked ht => ?_⟩
    · obtain ⟨n, r, now, cred, hasked, c, ht, -⟩ := hgot ho
      exact ⟨n, r, now, c, hasked, ht⟩
    · rintro ⟨n, r, now, c, hasked, ht⟩
      exact ⟨_, (hgets n r now _ hasked ⟨c, ht, rfl⟩).1⟩
    · obtain ⟨ho, hslot⟩ := hgets n r now _ hasked ⟨c, ht, rfl⟩
      exact ⟨ho, hslot, ht.obtainedAt⟩
  · by_cases he : Ended s₀.made s.history
    · obtain ⟨o, ho⟩ := he.resolve_left hn
      exact ⟨o, (State.run_history_suffix b s _).subset ho⟩
    · obtain ⟨f, hf, -⟩ := Option.bind_eq_some_iff.1 ((g.exchange_iff s₀.made x).2 ⟨hx, he⟩)
      exact resolved_of_driven hf (Nat.le_trans f.phase.task.pollsLeft_le hlen)

/-- The exchange that a manager without a store begins while none is in flight: driven for three rounds against a
service whose answers are accepted, it ends with its credential, which the slot then has without a guard. -/
theorem run_of_accepted {s : State m σ} {p : Params} (hm : m.cipher = none) (hp : p.problem? = none)
    (hidle : s.slot.inFlight = none) {w : Weather} {n : String} {r : Response} {now : Instant} {c : Credential}
    (hn : w.nonce = .ok n) (hr : w.enroll = .ok r) (ha : m.config.accept p r now = .ok c) :
    let x : Exchange := ⟨s.slot.generation + 1, p⟩
    let s' := (s.step b (.obtain p)).run b (drive s.made [(w, now), (w, now), (w, now)])
    s'.history =
      .resolved s.made (.ok (some c.headerValue)) :: .ran s.made (.waiting (.enrolling x (.ofParams n p))) now ::
      .performed s.made (.enroll (.ofParams n p)) (Except.ok r) :: .ran s.made (.waiting (.fetchingNonce x)) now ::
      .performed s.made .fetchNonce (Except.ok n) :: .ran s.made (.exchange x) now ::
      .called s.made (.exchange x) :: s.history ∧
    s'.slot = ⟨some c, none, s.slot.generation + 1⟩ := by
  intro x s'
  simp only [s', State.step_obtain_of_idle hp hidle]
  simp [x, drive, State.add, State.step, State.perform, State.poll, State.settle, State.scene, Phase.run?, Phase.task,
    Task.start, Manager.startExchange, hm, Stage.call, Weather.world, World.answer, hn, hr, Stage.resume, ha,
    Manager.keep, Manager.cache, Slot.isCurrent, Scene.record, Slot.fill, Slot.release]

/-- The first exchange of a new manager, which the service answers with a certificate of a client. -/
theorem obtains_exactly_trustworthy_enrolled :
    let m : Manager := ⟨{}, .never, none⟩
    let p : Params := { publicKey := [4] }
    let r : Response :=
      ⟨"MFswTgIBATAFBgMqAwQwADAeFw03MDAxMDEwMDAwMDBaFw03MDAxMDIwMDAwMDBaMBMxETAPBgoJkiaJk/IsZAEBDAFhMAswBQYDKgMEAwIABDAFBgMqAwQDAgAB", "t", none⟩
    let w : Weather := ⟨.ok "nonce", .ok r, {}⟩
    p.problem? = none ∧ (State.new .empty (.ofList []) : State m Entries).slot.inFlight = none ∧
      ∃ c, Trustworthy m.config p r ⟨0, 0⟩ c ∧
        (((State.new .empty (.ofList []) : State m Entries).step .memory (.obtain p)).run .memory
          (drive 0 [(w, ⟨0, 0⟩), (w, ⟨0, 0⟩), (w, ⟨0, 0⟩)])).slot.credential =
          some (Credential.ofEnrollment m.config r ⟨0, 0⟩ c) := by
  intro m p r w
  have hp : p.problem? = none := rfl
  have ha : m.config.accept p r ⟨0, 0⟩ = .ok ⟨"Bearer t", 0, ⟨"a", "", ""⟩⟩ := Config.accept_client
  have hmade : (State.new .empty (.ofList []) : State m Entries).made = 0 := rfl
  have hnew : (State.new .empty (.ofList []) : State m Entries).history = [] := rfl
  have hh := (run_of_accepted (b := .memory) (s := (State.new .empty (.ofList []) : State m Entries)) (w := w)
    rfl hp rfl rfl rfl ha).1
  have h := obtains_exactly_trustworthy (m := m) .memory .empty (.ofList []) []
    (drive 0 [(w, ⟨0, 0⟩), (w, ⟨0, 0⟩), (w, ⟨0, 0⟩)]) p hp rfl
  simp only [State.run_nil, hmade, hnew] at h hh
  obtain ⟨x, -, -, h⟩ := h
  obtain ⟨hiff, hgets⟩ := (h (by simp [hh])).1 _ _ hh
    (fun k now hb => by simpa using hb.mem.2)
    (fun key blob a hm => by
      simp only [List.mem_cons, reduceCtorEq, false_or, List.not_mem_nil, or_false] at hm
      rcases hm with hm | hm <;> cases hm)
  obtain ⟨n, r', now, c, hasked, ht⟩ := hiff.1 ⟨_, rfl⟩
  have hr : r' = r := (Except.ok.inj (hasked.response_eq (List.mem_cons_of_mem _ List.mem_cons_self))).symm
  have hnow : now = ⟨0, 0⟩ := (hasked.now_eq List.mem_cons_self).symm
  have hslot := (hgets n r' now c hasked ht).2.1
  rw [hr, hnow] at ht hslot
  exact ⟨hp, rfl, c, ht, hslot⟩

end ClientAuth.Interleaving
