import ClientAuth.Proofs.Interleaving.Storage

/-!
# What comes after a clear

A clear gives the credential up, and a later step of it removes the entry. What is in the slot and in the store after
that stems from exchanges that were called later, but for two orders of steps. A restore that starts between the two
steps of the clear may load the entry that is about to be removed (`Overtakes`). And an exchange from before the clear
may save its entry after the removal, and be dropped before it has removed it again (`Strands`).
-/

namespace ClientAuth.Interleaving

variable {m : Manager} {σ : Type} {b : Backing σ} {view : σ → String → Option String}

/-- An exchange has saved an entry. -/
def Event.saved (m : Manager) (i : Nat) (blob : String) : Event :=
  .performed i (.save m.config.storageKey blob) (Except.ok ())

/-- A future has removed the entry. -/
def Event.removed (m : Manager) (i : Nat) : Event := .performed i (.remove m.config.storageKey) (Except.ok ())

/-- A restore has loaded an entry. -/
def Event.loaded (m : Manager) (i : Nat) (blob : String) : Event :=
  .performed i (.load m.config.storageKey) (Except.ok (some blob))

/-- A restore overtakes a clear: it starts after the clear has given the credential up, and loads an entry before the
clear has removed it. -/
def Overtakes (m : Manager) (h : List Event) (k j : Nat) (blob : String) : Prop :=
  (∃ now now', Before h (.ran k .clear now) (.ran j .restore now')) ∧ .loaded m j blob ∈ h ∧
    (.removed m k ∈ h → Before h (.loaded m j blob) (.removed m k))

/-- An exchange from before a clear has saved an entry after the removal of the clear, and has not removed it. -/
def Leaves (m : Manager) (h : List Event) (k i : Nat) (blob : String) : Prop :=
  i < k ∧ Before h (.removed m k) (.saved m i blob) ∧ ¬Before h (.saved m i blob) (.removed m i)

/-- An exchange from before a clear strands an entry: it saves it after the removal of the clear, and is dropped before
it has removed it. -/
def Strands (m : Manager) (h : List Event) (k i : Nat) (blob : String) : Prop :=
  Leaves m h k i blob ∧ .abandoned i ∈ h

/-- An entry that may be found after a clear: an exchange that was called later has saved it, or a restore has overtaken
the clear with it, or an exchange from before has stranded it. -/
def Lasting (m : Manager) (h : List Event) (k : Nat) (blob : String) : Prop :=
  (∃ i, k < i ∧ .saved m i blob ∈ h) ∨ (∃ j, Overtakes m h k j blob) ∨ ∃ i, Strands m h k i blob

/-! ## Courses -/

/-- A clear that resolves without a failure has removed the entry, after it had given the credential up. -/
theorem Finish.removed {k : Nat} {es : List Event} (h : Finish m k (.ok none) es) (hc : .called k .clear ∈ es)
    (hm : m.cipher.isSome = true) : ∃ now, Before es (.ran k .clear now) (.removed m k) := by
  obtain ⟨f, es₁, s, s', rfl, hcourse, hr⟩ := h
  have ho : f.task.origin = .clear := ((hcourse.called_iff _).1 (by simpa using hc)).symm
  have hx : f.task.exchange? = none := Task.exchange?_eq_none (by simp [ho])
  cases run?_sideTurn hx hr with
  | cleared hn _ =>
    rw [hn] at hm
    cases hm
  | declines _ => cases ho
  | misses g a _ => cases ho
  | removed _ =>
    obtain ⟨es₂, rfl, hc₂⟩ := hcourse.of_answered
    obtain ⟨f, es₃, s₁, s₂, rfl, hc₃, hr₃⟩ := hc₂.of_waiting
    obtain rfl := run?_removing hr₃
    refine ⟨s₁.now, ?_⟩
    rw [before_cons, before_cons, before_cons]
    exact Or.inl (Or.inl (Or.inr ⟨rfl, List.mem_cons_self⟩))

/-! ## What has happened stays -/

theorem Overtakes.mono {h h' : List Event} {k j : Nat} {blob : String} (ho : Overtakes m h k j blob)
    (hs : h <:+ h') : Overtakes m h' k j blob := by
  obtain ⟨⟨now, now', hb⟩, hl, hr⟩ := ho
  refine ⟨⟨now, now', hb.mono hs⟩, hs.subset hl, fun hm => ?_⟩
  obtain ⟨es, rfl⟩ := hs
  rcases List.mem_append.1 hm with hm | hm
  · exact before_of_new hl hm
  · exact (hr hm).mono (List.suffix_append es h)

/-- Events without a removal leave an entry saved. -/
theorem Leaves.append {es h : List Event} {k i : Nat} {blob : String} (hl : Leaves m h k i blob)
    (hes : .removed m i ∉ es) : Leaves m (es ++ h) k i blob := by
  obtain ⟨hi, hb, hn⟩ := hl
  refine ⟨hi, hb.mono (List.suffix_append es h), ?_⟩
  rw [before_append hes]
  exact hn

/-- What has been stranded stays so, since a dropped future does nothing more. -/
theorem Strands.change {s s' : State m σ} (g : Guarded s) {move : Move} (h : State.Change b s move s') {k i : Nat}
    {blob : String} (hst : Strands m s.history k i blob) : Strands m s'.history k i blob := by
  obtain ⟨⟨hi, hb, hn⟩, ha⟩ := hst
  have hs := h.history_suffix
  refine ⟨⟨hi, hb.mono hs, fun hb' => hn ?_⟩, hs.subset ha⟩
  rw [← before_own (i := i) rfl rfl] at hb' ⊢
  rwa [h.own_of_ended g (Or.inl ha)] at hb'

theorem Lasting.change {s s' : State m σ} (g : Guarded s) {move : Move} (h : State.Change b s move s') {k : Nat}
    {blob : String} (hl : Lasting m s.history k blob) : Lasting m s'.history k blob := by
  rcases hl with ⟨i, hi, hm⟩ | ⟨j, ho⟩ | ⟨i, hst⟩
  · exact Or.inl ⟨i, hi, h.history_suffix.subset hm⟩
  · exact Or.inr (Or.inl ⟨j, ho.mono h.history_suffix⟩)
  · exact Or.inr (Or.inr ⟨i, hst.change g h⟩)

/-! ## Who fills the slot -/

/-- What is in the slot after a change was there before, or a current exchange or a restore in time has put it there;
and no clear has had its first step. -/
theorem State.Change.credential_cases {s s' : State m σ} (g : Guarded s) {move : Move} (h : State.Change b s move s')
    {c : Credential} (hc : s'.slot.credential = some c) :
    (∀ k now, .ran k .clear now ∈ s'.history → .ran k .clear now ∈ s.history) ∧
    (s.slot.credential = some c ∨
      (∃ i f now x, s.futures i = some f ∧ f.phase.task.exchange? = some x ∧ s.slot.isCurrent x.ticket = true ∧
        Yield m x (s.scene now) f.phase c ∧ .ran i f.phase.task now :: s.history <:+ s'.history) ∨
      ∃ j f blob, s.futures j = some f ∧
        f.phase = .answered (.loading s.slot.generation) (Except.ok (some blob)) ∧
        m.revealed (some blob) = .ok (some c)) := by
  cases h with
  | still => exact ⟨fun _ _ => id, Or.inl hc⟩
  | begins _ _ => cases hc
  | refuses _ => exact ⟨by simp [State.add], Or.inl hc⟩
  | asksClear => exact ⟨by simp [State.add], Or.inl hc⟩
  | asksRestore => exact ⟨by simp [State.add], Or.inl hc⟩
  | performs _ => exact ⟨by simp [State.perform], Or.inl hc⟩
  | aborts _ _ => exact ⟨fun _ _ => id, Or.inl hc⟩
  | drops _ => exact ⟨by simp [State.abandon], Or.inl ((drop_credential _ _).symm.trans hc)⟩
  | cutsOff _ _ => exact ⟨by simp, Or.inl ((drop_credential _ _).symm.trans hc)⟩
  | @polls i now f run hf _ hr =>
    rw [State.settle_slot] at hc
    have hsuffix : .ran i f.phase.task now :: s.history <:+
        (({ s with history := .ran i f.phase.task now :: s.history } : State m σ).settle i run).history := by
      obtain ⟨es, he, -⟩ := State.ran_history s i f.phase.task now run
      exact ⟨es, he.symm⟩
    have hquiet : f.phase.task ≠ .clear → ∀ k now', .ran k .clear now' ∈
        (({ s with history := .ran i f.phase.task now :: s.history } : State m σ).settle i run).history →
          .ran k .clear now' ∈ s.history := by
      intro ht k now' hm
      rcases (State.mem_ran_history (by simp)).1 hm with he | hm
      · injection he with _ he
        exact absurd he.symm ht
      · exact hm
    cases hx : f.phase.task.exchange? with
    | some x =>
      have hturn := run?_turn hx hr
      refine ⟨hquiet fun ht => by simp [ht, Task.exchange?] at hx, ?_⟩
      obtain ⟨p, s₁⟩ := run
      cases p with
      | waiting stage =>
        rw [hturn.waiting.2.2] at hc
        exact Or.inl hc
      | finished o =>
        rcases hturn.finished (fun stage => g.honest i f stage hf) with ⟨e, -, -, hs⟩ | ⟨c', -, hy, hcur, hs⟩
        · rw [hs, release_credential] at hc
          exact Or.inl hc
        · rw [hs, release_credential] at hc
          obtain rfl : c' = c := Option.some.inj hc
          exact Or.inr (Or.inl ⟨i, f, now, x, hf, hx, hcur, hy, hsuffix⟩)
    | none =>
      rcases (run?_sideTurn hx hr).slot with ⟨ht, hs⟩ | ⟨-, hs⟩ | ⟨blob, c', hrev, -, hp, hs⟩
      · rw [hs] at hc
        exact ⟨hquiet ht, Or.inl hc⟩
      · rw [hs] at hc
        cases hc
      · rw [hs] at hc
        obtain rfl : c' = c := Option.some.inj hc
        exact ⟨hquiet (by simp [hp, Phase.task]), Or.inr (Or.inr ⟨i, f, blob, hf, hp, hrev⟩)⟩

/-- What an exchange fills the slot with was issued to it. -/
theorem Traced.issued_of_yield {s : State m σ} (ht : Traced s) {i : Nat} {f : Future m} (hf : s.futures i = some f)
    {x : Exchange} {now : Instant} {c : Credential} (hy : Yield m x (s.scene now) f.phase c) {h : List Event}
    (hran : .ran i f.phase.task now :: s.history <:+ h) : Issued m h i c := by
  have hc := ht.live i f hf
  obtain ⟨phase, aborted⟩ := f
  simp only at hy hc hran
  cases hy with
  | saved c blob => exact (hc.issued_of_saving rfl).1.of_own.mono ((List.suffix_cons _ _).trans hran)
  | unsaved _ ha =>
    have hi := hc.issued_of_accept ha
    rw [← own_cons_self (i := i) (by rfl)] at hi
    exact hi.of_own.mono hran

/-- A poll that a future has newly had finds it at its task, carries it on, and performs no call. -/
theorem State.Change.ran_new {s s' : State m σ} {move : Move} (h : State.Change b s move s') {k : Nat} {t : Task}
    {now : Instant} (hr : .ran k t now ∈ s'.history) (hn : .ran k t now ∉ s.history) :
    ∃ f run, s.futures k = some f ∧ f.phase.task = t ∧ f.phase.run? (s.scene now) = some run ∧
      s'.slot = run.2.slot ∧ ∀ i c a, .performed i c a ∈ s'.history → .performed i c a ∈ s.history := by
  cases h with
  | still => exact absurd hr hn
  | begins _ _ => exact absurd (by simpa [State.add] using hr) hn
  | refuses _ => exact absurd (by simpa [State.add] using hr) hn
  | asksClear => exact absurd (by simpa [State.add] using hr) hn
  | asksRestore => exact absurd (by simpa [State.add] using hr) hn
  | performs _ => exact absurd (by simpa [State.perform] using hr) hn
  | aborts _ _ => exact absurd hr hn
  | drops _ => exact absurd (by simpa [State.abandon] using hr) hn
  | cutsOff _ _ => exact absurd (by simpa using hr) hn
  | @polls i now' f run hf _ hrun =>
    cases ((State.mem_ran_history (by simp)).1 hr).resolve_right hn
    exact ⟨f, run, hf, rfl, hrun, State.settle_slot _ _,
      fun _ _ _ hm => ((State.mem_ran_history (by simp)).1 hm).resolve_left (by simp)⟩

/-! ## The invariant -/

/-- What is in the slot, on its way into it, and in the store, after a clear has come to give the credential up and to
remove the entry, which it does in this order. -/
structure Final (view : σ → String → Option String) (k : Nat) (s : State m σ) : Prop where
  order : ∀ now, .ran k .clear now ∈ s.history → .removed m k ∈ s.history →
    Before s.history (.ran k .clear now) (.removed m k)
  slot : ∀ now c, .ran k .clear now ∈ s.history → s.slot.credential = some c →
    (∃ i, k < i ∧ Issued m s.history i c) ∨
      ∃ blob, m.revealed (some blob) = .ok (some c) ∧ Lasting m s.history k blob
  loaded : ∀ now j f blob, .ran k .clear now ∈ s.history → s.futures j = some f →
    f.phase = .answered (.loading s.slot.generation) (Except.ok (some blob)) → Lasting m s.history k blob
  entry : ∀ now blob, Before s.history (.ran k .clear now) (.removed m k) →
    view s.store m.config.storageKey = some blob → (∃ i, k < i ∧ .saved m i blob ∈ s.history) ∨
      ∃ i, Leaves m s.history k i blob ∧ (.abandoned i ∈ s.history ∨ ∃ f, s.futures i = some f)

/-- An exchange that was called before the first step of a clear is not current after it. -/
theorem isCurrent_of_ran {s : State m σ} (g : Guarded s) (ht : Traced s) (t : Timely s) {i k : Nat} {x : Exchange}
    {now : Instant} (hx : s.exchange? i = some x) (hi : i < k) (hr : .ran k .clear now ∈ s.history) :
    s.slot.isCurrent x.ticket = false :=
  (t.exchange i x hx).2 ⟨k, now, ht.ordered i _ _ ((g.exchange_iff i x).1 hx).1 hr hi⟩

/-- An exchange that has saved its entry after a clear ends by a poll only once it has removed it. -/
theorem Leaves.not_finished {s : State m σ} (g : Guarded s) (ht : Traced s) (t : Timely s)
    (hm : m.cipher.isSome = true) (fl : Flawless s.history) {k i : Nat} {blob : String} {now : Instant}
    (hr : .ran k .clear now ∈ s.history) (hl : Leaves m s.history k i blob) {f : Future m} (hf : s.futures i = some f)
    {now' : Instant} {o : Outcome} {s₁ : Scene} (hrun : f.phase.run? (s.scene now') = some (.finished o, s₁)) :
    False := by
  obtain ⟨hi, hb, hn⟩ := hl
  have hc := ht.live i f hf
  have hsaved : .saved m i blob ∈ own i s.history := (mem_own rfl).2 hb.mem.2
  obtain ⟨x, hx⟩ := hc.exchange_of_save hsaved
  have hlate := isCurrent_of_ran g ht t ((State.exchange?_of_future hf).trans hx) hi hr
  have hturn := run?_turn hx hrun
  obtain ⟨phase, aborted⟩ := f
  simp only at hturn hc
  cases hturn with
  | caches _ hcur _ => cases hlate.symm.trans hcur
  | fails hnone _ _ =>
    rw [hnone] at hm
    cases hm
  | ends e a _ =>
    obtain ⟨es, hown, -⟩ := hc.of_answered
    have hmem : .performed i (.remove m.config.storageKey) a ∈ s.history := by
      rw [← mem_own (i := i) rfl, hown]
      exact List.mem_cons_self
    obtain rfl : a = Except.ok () := fl i (.remove m.config.storageKey) a hmem
    rw [hown, List.mem_cons] at hsaved
    rw [← before_own (i := i) rfl rfl, hown, before_cons] at hn
    exact hn (Or.inr ⟨rfl, hsaved.resolve_left fun h => by cases h⟩)

/-- An exchange that has saved its entry after a clear goes on, or it is dropped. -/
theorem Leaves.stays {s s' : State m σ} (g : Guarded s) (ht : Traced s) (t : Timely s) (hm : m.cipher.isSome = true)
    (fl : Flawless s.history) {move : Move} (h : State.Change b s move s') {k i : Nat} {blob : String} {now : Instant}
    (hr : .ran k .clear now ∈ s.history) (hl : Leaves m s.history k i blob)
    (hlive : .abandoned i ∈ s.history ∨ ∃ f, s.futures i = some f) :
    .abandoned i ∈ s'.history ∨ ∃ f, s'.futures i = some f := by
  rcases hlive with ha | ⟨f, hf⟩
  · exact Or.inl (h.history_suffix.subset ha)
  by_cases hmove : move.future? = some i
  · cases h with
    | still => exact Or.inr ⟨f, hf⟩
    | begins _ _ => cases hmove
    | refuses _ => cases hmove
    | asksClear => cases hmove
    | asksRestore => cases hmove
    | performs _ =>
      cases hmove
      exact Or.inr ⟨_, by simp [State.perform]; rfl⟩
    | aborts _ _ =>
      cases hmove
      exact Or.inr ⟨_, by simp; rfl⟩
    | drops _ =>
      cases hmove
      exact Or.inl (by simp [State.abandon])
    | cutsOff _ _ =>
      cases hmove
      exact Or.inl (by simp)
    | @polls _ now' f' run hf' _ hrun =>
      cases hmove
      obtain ⟨p, s₁⟩ := run
      cases p with
      | waiting stage => exact Or.inr ⟨_, by simp [State.settle]; rfl⟩
      | finished o => exact (hl.not_finished g ht t hm fl hr hf' hrun).elim
  · rw [(h.frame (g.live_lt i f hf) hmove).1]
    exact Or.inr ⟨f, hf⟩

namespace Final

variable {s s' : State m σ} {k : Nat}

theorem new (store : σ) (nonces : Nonces) : Final view k (State.new store nonces : State m σ) := by
  refine ⟨?_, ?_, ?_, ?_⟩ <;> simp [State.new, Before]

/-- A clear never has its first step after its removal. -/
theorem change_order (ht : Traced s) (F : Final view k s) {move : Move} (h : State.Change b s move s') {now : Instant}
    (hr : .ran k .clear now ∈ s'.history) (hp : .removed m k ∈ s'.history) :
    Before s'.history (.ran k .clear now) (.removed m k) := by
  by_cases hold : .ran k .clear now ∈ s.history
  · by_cases hremoved : .removed m k ∈ s.history
    · exact (F.order now hold hremoved).mono h.history_suffix
    · obtain ⟨es, hh, -⟩ := h.events
      rw [hh] at hp ⊢
      exact before_of_new hold ((List.mem_append.1 hp).resolve_right hremoved)
  · obtain ⟨f, -, hf, htask, -, -, hperformed⟩ := h.ran_new hr hold
    have hstart : f.phase = .unanswered .clear := by
      obtain ⟨phase, aborted⟩ := f
      cases phase with
      | unanswered t => exact congrArg _ htask
      | answered stage a => cases htask
    have hc := ht.live k f hf
    rw [hstart] at hc
    have hmem := (mem_own (i := k) rfl).2 (hperformed k _ _ hp)
    rw [hc.eq_of_start (by simp)] at hmem
    cases List.mem_singleton.1 hmem

/-- Every change leaves in the slot what may come after the clear. -/
theorem change_slot (g : Guarded s) (ht : Traced s) (t : Timely s) (F : Final view k s) {move : Move}
    (h : State.Change b s move s') {now : Instant} {c : Credential} (hr : .ran k .clear now ∈ s'.history)
    (hc : s'.slot.credential = some c) : (∃ i, k < i ∧ Issued m s'.history i c) ∨
      ∃ blob, m.revealed (some blob) = .ok (some c) ∧ Lasting m s'.history k blob := by
  have hs := h.history_suffix
  obtain ⟨hold, hcases⟩ := h.credential_cases g hc
  have hr := hold k now hr
  rcases hcases with hc | ⟨i, f, now', x, hf, hx, hcur, hy, hran⟩ | ⟨j, f, blob, hf, hp, hrev⟩
  · rcases F.slot now c hr hc with ⟨i, hi, hiss⟩ | ⟨blob, hrev, hl⟩
    · exact Or.inl ⟨i, hi, hiss.mono hs⟩
    · exact Or.inr ⟨blob, hrev, hl.change g h⟩
  · have hcourse := ht.live i f hf
    have hi : k < i := by
      rcases Nat.lt_trichotomy i k with hlt | rfl | hlt
      · cases hcur.symm.trans (isCurrent_of_ran g ht t ((State.exchange?_of_future hf).trans hx) hlt hr)
      · have ho := hcourse.origin_of_ran ((mem_own rfl).2 hr)
        rw [(Task.exchange?_iff_origin _ x).1 hx] at ho
        cases ho
      · exact hlt
    exact Or.inl ⟨i, hi, ht.issued_of_yield hf hy hran⟩
  · exact Or.inr ⟨blob, hrev, (F.loaded now j f blob hr hf hp).change g h⟩

/-- A load that is in time finds what may come after the clear, or overtakes it. -/
theorem performs_load (g : Guarded s) (ht : Traced s) (t : Timely s) (hb : b.Lawful view) (F : Final view k s)
    {now : Instant} {j : Nat} {aborted : Bool} {w : Weather} {blob : String}
    (hl : s.futures j = some ⟨.unanswered (.waiting (.loading s.slot.generation)), aborted⟩)
    (hr : .ran k .clear now ∈ s.history)
    (ha : ((w.world b s.store).answer ((Stage.loading s.slot.generation).call m)).1 = Except.ok (some blob)) :
    Lasting m (.loaded m j blob :: s.history) k blob := by
  have hview : view s.store m.config.storageKey = some blob := (view_load hb w s.store _ ha).symm
  obtain ⟨-, -, hidle⟩ := t.loading j _ s.slot.generation hl rfl
  obtain ⟨now', hafter⟩ := t.restored_since ht hl rfl hr
  by_cases hp : .removed m k ∈ s.history
  · rcases F.entry now blob (F.order now hr hp) hview with ⟨i, hi, hsaved⟩ | ⟨i, hleft, hlive⟩
    · exact Or.inl ⟨i, hi, List.mem_cons_of_mem _ hsaved⟩
    · have hdropped : .abandoned i ∈ s.history := by
        refine hlive.resolve_right ?_
        rintro ⟨f, hf⟩
        obtain ⟨x, hx⟩ := (ht.live i f hf).exchange_of_save ((mem_own rfl).2 hleft.2.1.mem.2)
        cases (g.exchange?_eq_none (hidle rfl) i).symm.trans ((State.exchange?_of_future hf).trans hx)
      have hleft' : Leaves m ([.loaded m j blob] ++ s.history) k i blob :=
        hleft.append fun h => by cases List.mem_singleton.1 h
      exact Or.inr (Or.inr ⟨i, hleft', List.mem_cons_of_mem _ hdropped⟩)
  · refine Or.inr (Or.inl ⟨j, ⟨now, now', hafter.mono (List.suffix_cons _ _)⟩, List.mem_cons_self, fun hm => ?_⟩)
    exact absurd ((List.mem_cons.1 hm).resolve_left fun h => by cases h) hp

/-- Every change leaves on its way into the slot what may come after the clear. -/
theorem change_loaded (g : Guarded s) (ht : Traced s) (t : Timely s) (hb : b.Lawful view) (F : Final view k s)
    {move : Move} (h : State.Change b s move s') {now : Instant} {j : Nat} {f : Future m} {blob : String}
    (hr : .ran k .clear now ∈ s'.history) (hf : s'.futures j = some f)
    (hp : f.phase = .answered (.loading s'.slot.generation) (Except.ok (some blob))) :
    Lasting m s'.history k blob := by
  rcases t.loaded_cases g h hf hp with ⟨hgen, -, f, hl, hp⟩ | ⟨w, aborted, hl, rfl, hanswer⟩
  · exact (F.loaded now j f blob (h.generation_le.2 hgen k now hr) hl hp).change g h
  · have hr' : .ran k .clear now ∈ s.history := h.generation_le.2 rfl k now hr
    have hh : (s.perform b j w (.loading s.slot.generation) aborted).history = .loaded m j blob :: s.history := by
      rw [State.perform_history, hanswer]
      rfl
    rw [hh]
    exact F.performs_load g ht t hb hl hr' hanswer

/-- A save is one of an exchange that was called later, or leaves an entry from before. -/
theorem saves (ht : Traced s) {i : Nat} {x : Exchange} {c : Credential} {blob : String} {aborted : Bool}
    (hf : s.futures i = some ⟨.unanswered (.waiting (.saving x c blob)), aborted⟩) {now : Instant}
    (hp : Before s.history (.ran k .clear now) (.removed m k)) :
    k < i ∨ Leaves m (.saved m i blob :: s.history) k i blob := by
  have hc := ht.live i _ hf
  rcases Nat.lt_trichotomy i k with hlt | rfl | hlt
  · refine Or.inr ⟨hlt, before_cons.2 (Or.inr ⟨rfl, hp.mem.2⟩), fun hb => ?_⟩
    rcases before_cons.1 hb with hb | ⟨he, -⟩
    · exact hc.save_not_mem trivial _ _ _ ((mem_own rfl).2 hb.mem.1)
    · cases he
  · cases hc.origin_of_ran ((mem_own rfl).2 hp.mem.1)
  · exact Or.inl hlt

/-- Every change leaves in the store what may come after the clear. -/
theorem change_entry (g : Guarded s) (ht : Traced s) (t : Timely s) (hm : m.cipher.isSome = true)
    (hb : b.Lawful view) (fl : Flawless s'.history) (F : Final view k s) {move : Move}
    (h : State.Change b s move s') {now : Instant} {blob : String}
    (hp : Before s'.history (.ran k .clear now) (.removed m k))
    (hv : view s'.store m.config.storageKey = some blob) : (∃ i, k < i ∧ .saved m i blob ∈ s'.history) ∨
      ∃ i, Leaves m s'.history k i blob ∧ (.abandoned i ∈ s'.history ∨ ∃ f, s'.futures i = some f) := by
  have hs := h.history_suffix
  have hstay : ∀ es, s'.history = es ++ s.history → (∀ i, .removed m i ∉ es) →
      view s.store m.config.storageKey = some blob → (∃ i, k < i ∧ .saved m i blob ∈ s'.history) ∨
        ∃ i, Leaves m s'.history k i blob ∧ (.abandoned i ∈ s'.history ∨ ∃ f, s'.futures i = some f) := by
    intro es hh hes hv
    have hp' : Before s.history (.ran k .clear now) (.removed m k) := by
      rw [hh, before_append (hes k)] at hp
      exact hp
    rcases F.entry now blob hp' hv with ⟨i, hi, hsaved⟩ | ⟨i, hl, hlive⟩
    · exact Or.inl ⟨i, hi, hs.subset hsaved⟩
    · refine Or.inr ⟨i, ?_, hl.stays g ht t hm (fl.mono hs) h hp'.mem.1 hlive⟩
      rw [hh]
      exact hl.append (hes i)
  rcases h.store_cases with ⟨hst, es, hh, hes⟩ | ⟨i, w, stage, aborted, hf, rfl⟩
  · exact hstay es hh (fun i => hes i _ _) (hst ▸ hv)
  · have hsucc := fl i (stage.call m) _ List.mem_cons_self
    have hview : (stage.call m).left (view s.store m.config.storageKey) = some blob :=
      (view_answer hb w s.store stage hsucc).symm.trans hv
    have hcall : ∀ (c : Call) (a : c.Answer),
        (s.perform b i w stage aborted).history = [.performed i c a] ++ s.history →
        (∀ key, c ≠ .remove key) → view s.store m.config.storageKey = some blob → _ := fun c a hh hne =>
      hstay _ hh fun j hmem => by
        rw [List.mem_singleton] at hmem
        injection hmem with _ hc
        exact hne _ hc.symm
    cases stage with
    | removingOld x => cases hview
    | cleaningUp x e => cases hview
    | removing => cases hview
    | discarding e => cases hview
    | fetchingNonce x => exact hcall _ _ rfl (fun _ h => by cases h) hview
    | enrolling x request => exact hcall _ _ rfl (fun _ h => by cases h) hview
    | loading g => exact hcall _ _ rfl (fun _ h => by cases h) hview
    | saving x c blob' =>
      obtain rfl : blob' = blob := Option.some.inj hview
      have hp' : Before s.history (.ran k .clear now) (.removed m k) :=
        (before_cons.1 hp).resolve_right fun hc => by cases hc.1
      have hok : ((w.world b s.store).answer ((Stage.saving x c blob').call m)).1 = Except.ok () := hsucc
      have hh : (s.perform b i w (.saving x c blob') aborted).history = .saved m i blob' :: s.history := by
        rw [State.perform_history, hok]
        rfl
      rw [hh]
      rcases saves ht hf hp' with hfresh | hleft
      · exact Or.inl ⟨i, hfresh, List.mem_cons_self⟩
      · exact Or.inr ⟨i, hleft, Or.inr ⟨_, by simp [State.perform]; rfl⟩⟩

/-- Every change keeps to what may come after the clear. -/
theorem change (g : Guarded s) (ht : Traced s) (t : Timely s) (hm : m.cipher.isSome = true) (hb : b.Lawful view)
    (fl : Flawless s'.history) (F : Final view k s) {move : Move} (h : State.Change b s move s') : Final view k s' where
  order _ := F.change_order ht h
  slot _ _ := F.change_slot g ht t h
  loaded _ _ _ _ := F.change_loaded g ht t hb h
  entry _ _ := F.change_entry g ht t hm hb fl h

/-- In every interleaving in which the store does not fail, this is all that comes after the clear. -/
theorem run (hb : b.Lawful view) (hm : m.cipher.isSome = true) (store : σ) (nonces : Nonces) (moves : List Move)
    (fl : Flawless ((State.new store nonces : State m σ).run b moves).history) (k : Nat) :
    Final view k ((State.new store nonces : State m σ).run b moves) := by
  have h : Flawless ((State.new store nonces : State m σ).run b moves).history →
      ∀ k, Final view k ((State.new store nonces : State m σ).run b moves) := by
    refine State.new_run_induction (P := fun s => Flawless s.history → ∀ k, Final view k s)
      (fun _ k => new store nonces) (fun moves move F fl k => ?_) moves
    have hc := State.step_change b ((State.new store nonces : State m σ).run b moves) move
    exact (F (fl.mono hc.history_suffix) k).change (Guarded.run b store nonces moves) (Traced.run b store nonces moves)
      (Timely.run b store nonces moves) hm hb fl hc
  exact h fl k

end Final

/-- Saved entries are envelopes of credentials that were issued to the exchange that saves them. -/
def Sealed (s : State m σ) : Prop :=
  ∀ i blob, .saved m i blob ∈ s.history → ∃ c cipher n, Issued m s.history i c ∧ m.cipher = some cipher ∧
    blob = (cipher.encloseValue Credential.codec n c).1

theorem Sealed.change {s s' : State m σ} (ht : Traced s) (hs : Sealed s) {move : Move}
    (h : State.Change b s move s') : Sealed s' := by
  intro i blob hm
  have hold : .saved m i blob ∈ s.history → ∃ c cipher n, Issued m s'.history i c ∧ m.cipher = some cipher ∧
      blob = (cipher.encloseValue Credential.codec n c).1 := by
    intro hm
    obtain ⟨c, cipher, n, hi, hc, hb⟩ := hs i blob hm
    exact ⟨c, cipher, n, hi.mono h.history_suffix, hc, hb⟩
  rcases h.store_cases with ⟨-, es, hh, hes⟩ | ⟨j, w, stage, aborted, hf, rfl⟩
  · rw [hh, List.mem_append] at hm
    exact hold (hm.resolve_left (hes _ _ _))
  · rw [State.perform_history, List.mem_cons] at hm
    rcases hm with he | hm
    · injection he with hj hcall
      subst hj
      cases stage with
      | saving x c blob' =>
        obtain rfl : blob = blob' := (Call.save.inj hcall).2
        obtain ⟨hi, cipher, n, hc, hb⟩ := (ht.live i _ hf).issued_of_saving rfl
        exact ⟨c, cipher, n, hi.of_own.mono h.history_suffix, hc, hb⟩
      | _ => cases hcall
    · exact hold hm

theorem Sealed.run (b : Backing σ) (store : σ) (nonces : Nonces) (moves : List Move) :
    Sealed ((State.new store nonces : State m σ).run b moves) :=
  State.new_run_induction (by simp [Sealed, State.new])
    (fun moves _ hs => hs.change (Traced.run b store nonces moves) (State.step_change b _ _)) moves

/-- A restore that has just ended with a header has put into the slot what it has loaded. -/
def Brought (s : State m σ) : Prop :=
  ∀ j hd h blob, s.history = .resolved j (.ok (some hd)) :: h → .loaded m j blob ∈ h →
    ∃ c, m.revealed (some blob) = .ok (some c) ∧ s.slot.credential = some c ∧ c.headerValue = hd

theorem Brought.change {s s' : State m σ} (ht : Traced s) (hs : Brought s) {move : Move}
    (h : State.Change b s move s') : Brought s' := by
  intro j hd hist blob hh hm
  rcases h.resolved_cases hh with ⟨hold, hslot⟩ | ⟨-, ho⟩ | ⟨f, now, s₁, hf, hr, rfl, hslot⟩
  · rw [hslot]
    exact hs j hd hist blob hold hm
  · cases ho
  · have hc := ht.live j f hf
    have hl : .loaded m j blob ∈ own j s.history :=
      (mem_own rfl).2 ((List.mem_cons.1 hm).resolve_left fun h => by cases h)
    have hx : f.phase.task.exchange? = none := Task.exchange?_eq_none (by simp [hc.origin_of_load hl])
    rw [hslot]
    obtain ⟨phase, aborted⟩ := f
    cases run?_sideTurn hx hr with
    | @restores blob' c _ hrev _ hfill =>
      have he := hc.load_eq hl
      injection he with _ _ he
      obtain rfl : blob = blob' := Option.some.inj (Except.ok.inj he)
      exact ⟨c, hrev, by simp [hfill, Slot.fill], rfl⟩
    | misses g a hn => exact absurd rfl (hn hd)
    | declines hn => rcases hn with h | h <;> cases h

theorem Brought.run (b : Backing σ) (store : σ) (nonces : Nonces) (moves : List Move) :
    Brought ((State.new store nonces : State m σ).run b moves) :=
  State.new_run_induction (by simp [Brought, State.new])
    (fun moves _ hs => hs.change (Traced.run b store nonces moves) (State.step_change b _ _)) moves

/-- An entry that was saved stays until another call writes. -/
theorem view_of_saved (hb : b.Lawful view) {store : σ} {nonces : Nonces} {moves : List Move}
    (fl : Flawless ((State.new store nonces : State m σ).run b moves).history) {i : Nat} {blob : String}
    {later h : List Event}
    (hh : ((State.new store nonces : State m σ).run b moves).history = later ++ .saved m i blob :: h)
    (hlater : ∀ j c a, .performed j c a ∈ later → ∀ entry, c.left entry = entry) :
    view ((State.new store nonces : State m σ).run b moves).store m.config.storageKey = some blob := by
  rw [Shown.run hb store nonces moves fl, hh]
  clear hh
  induction later with
  | nil => rfl
  | cons e later ih =>
    have ih := ih fun j c a hm => hlater j c a (List.mem_cons_of_mem _ hm)
    cases e with
    | performed j c a => exact (hlater j c a List.mem_cons_self _).trans ih
    | called j t => exact ih
    | ran j t now => exact ih
    | abandoned j => exact ih
    | resolved j o => exact ih

/-- What comes after a clear of a manager with a store that does not fail, in any interleaving. Once the clear has
resolved without a failure, the credential in the slot was issued to an exchange that was called later, or revealed by a
lasting entry; and once every future that was called earlier has ended, the entry in the store was saved by an exchange
that was called later, or stranded. Entries are envelopes of credentials issued to the exchanges that save them. So the
clear is final unless a restore overtakes it or an exchange from before strands an entry, and either undoes it: the
overtaking restore fills the slot with what it has loaded, which no later step of the clear changes, and the stranded
entry stays until another call writes. -/
theorem clear_final (hb : b.Lawful view) (hm : m.cipher.isSome = true) (store : σ) (nonces : Nonces)
    (moves : List Move) (fl : Flawless ((State.new store nonces : State m σ).run b moves).history) :
    let s : State m σ := (State.new store nonces).run b moves
    (∀ k, .called k .clear ∈ s.history → .resolved k (.ok none) ∈ s.history →
      (∀ c, s.slot.credential = some c → (∃ i, k < i ∧ Issued m s.history i c) ∨
        ∃ blob, m.revealed (some blob) = .ok (some c) ∧ Lasting m s.history k blob) ∧
      ((∀ i < k, Ended i s.history) → ∀ blob, view s.store m.config.storageKey = some blob →
        (∃ i, k < i ∧ .saved m i blob ∈ s.history) ∨ ∃ i, Strands m s.history k i blob)) ∧
    (∀ i blob, .saved m i blob ∈ s.history → ∃ c cipher n, Issued m s.history i c ∧ m.cipher = some cipher ∧
      blob = (cipher.encloseValue Credential.codec n c).1) ∧
    (∀ k j blob hd h, Overtakes m s.history k j blob → s.history = .resolved j (.ok (some hd)) :: h →
      (∃ c, m.revealed (some blob) = .ok (some c) ∧ s.slot.credential = some c ∧ c.headerValue = hd) ∧
      ∀ move, move.future? = some k → (s.step b move).slot = s.slot) ∧
    (∀ i blob later h, s.history = later ++ .saved m i blob :: h →
      (∀ j c a, .performed j c a ∈ later → ∀ entry, c.left entry = entry) →
      view s.store m.config.storageKey = some blob) := by
  intro s
  have g : Guarded s := Guarded.run b store nonces moves
  have ht : Traced s := Traced.run b store nonces moves
  refine ⟨fun k hc hres => ?_, Sealed.run b store nonces moves, fun k j blob hd h ho hh => ⟨?_, fun move => ?_⟩,
    fun i blob later h hh hlater => view_of_saved hb fl hh hlater⟩
  · have hfinish : Finish m k (.ok none) (own k s.history) :=
      (ht.resolved k _ hres).resolve_right fun h => by cases h.2
    obtain ⟨now, hbefore⟩ := hfinish.removed ((mem_own rfl).2 hc) hm
    have hbefore := (before_own (i := k) rfl rfl).1 hbefore
    have F : Final view k s := Final.run hb hm store nonces moves fl k
    refine ⟨fun c => F.slot now c hbefore.mem.1, fun hended blob hv => ?_⟩
    refine (F.entry now blob hbefore hv).imp id ?_
    rintro ⟨i, hl, ha | ⟨f, hf⟩⟩
    · exact ⟨i, hl, ha⟩
    · exact absurd (hended i hl.1) (g.not_ended hf)
  · refine Brought.run b store nonces moves j hd h blob hh ?_
    have hl := ho.2.1
    rw [hh] at hl
    exact (List.mem_cons.1 hl).resolve_left fun h => by cases h
  · obtain ⟨now, now', hbefore⟩ := ho.1
    exact slot_of_ran_clear ht hbefore.mem.1

/-- A clear that nothing disturbs, of a store that had an entry. -/
theorem clear_final_undisturbed :
    let m : Manager := ⟨{}, .never, some (.ofPassword .aes256Gcm "password")⟩
    let s : State m Entries := (State.new (Entries.empty.insert m.config.storageKey "entry") (.ofList [])).run .memory
      [.clear, .poll 0 ⟨0, 0⟩, .perform 0 ⟨.ok "nonce", .error .cancelled, {}⟩, .poll 0 ⟨0, 0⟩]
    Flawless s.history ∧ .called 0 .clear ∈ s.history ∧ .resolved 0 (.ok none) ∈ s.history ∧
      ∀ blob, s.store.get? m.config.storageKey = some blob →
        (∃ i, 0 < i ∧ .saved m i blob ∈ s.history) ∨ ∃ i, Strands m s.history 0 i blob := by
  intro m s
  have hh : s.history = [.resolved 0 (.ok none), .ran 0 (.waiting .removing) ⟨0, 0⟩, .removed m 0,
      .ran 0 .clear ⟨0, 0⟩, .called 0 .clear] := rfl
  have fl : Flawless s.history := by
    intro i c a hp
    rw [hh] at hp
    simp only [List.mem_cons, reduceCtorEq, false_or, List.not_mem_nil, or_false] at hp
    cases hp
    rfl
  have hc : .called 0 .clear ∈ s.history := by simp [hh]
  have hr : .resolved 0 (.ok none) ∈ s.history := by simp [hh]
  exact ⟨fl, hc, hr, ((clear_final Backing.memory_lawful rfl _ _ _ fl).1 0 hc hr).2 fun i hi => by cases hi⟩

end ClientAuth.Interleaving
