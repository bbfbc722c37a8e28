import ClientAuth.Proofs.Interleaving.Agreement
import ClientAuth.Proofs.Interleaving.Succession
import ClientAuth.Proofs.Subject

/-!
# Where a visible credential comes from

A restore believes the entry that it opens: it checks nothing about the credential in it. So what managers show rests on
what any manager has ever saved. Here managers share a store and a cipher, a restart being a new manager over what the
former ones left (`Fleet`). Every envelope that is saved is one of a credential that was issued to the exchange that saves
it, and no other operation brings an entry up; so by induction over what any of them does, whatever opens under any key was
issued to an exchange of one of them (`Trusted`), and so was whatever any of them shows (`Shows`).
-/

namespace ClientAuth

/-- A text with a character that is not blank still has one when it is trimmed. -/
theorem Text.exists_not_blank_trim {s : String} (h : ∃ c ∈ s.toList, isBlank c = false) :
    ∃ c ∈ (trim s).toList, isBlank c = false := by
  have hne : trimChars s.toList ≠ [] := by
    intro hnil
    have hempty : (trim s).isEmpty = true := by
      rw [trim, hnil]
      rfl
    obtain ⟨c, hc, hblank⟩ := h
    cases hblank.symm.trans ((trim_isEmpty_iff s).1 hempty c hc)
  rw [trim, String.toList_ofList]
  exact ⟨_, List.getLast_mem hne, isBlank_of_trimEnd (List.dropLast_concat_getLast hne).symm⟩

/-- A store in which what is done under one key leaves the entries under other keys as they were. -/
structure Backing.Apart {σ : Type} (b : Backing σ) (view : σ → String → Option String) : Prop where
  save : ∀ s key blob other, other ≠ key → view (b.save s key blob).2 other = view s other
  remove : ∀ s key other, other ≠ key → view (b.remove s key).2 other = view s other

/-- A store that behaves as a map keeps its entries apart. -/
theorem Backing.IsMap.apart {σ : Type} {b : Backing σ} {view : σ → String → Option String} (h : b.IsMap view) :
    b.Apart view :=
  ⟨fun s _ blob _ hother => h.view_save_of_ne s blob hother, fun s _ _ hother => h.view_remove_of_ne s hother⟩

/-- The store in memory keeps its entries apart. -/
theorem Backing.memory_apart : Backing.memory.Apart Entries.get? :=
  Backing.memory_isMap.apart

/-- A store keeps its entries apart when some of its operations are made to fail. -/
theorem Backing.Apart.failing {σ : Type} {b : Backing σ} {view : σ → String → Option String} (h : b.Apart view)
    (f : Faults) : (b.failing f).Apart view := by
  refine ⟨?_, ?_⟩
  · intro s key blob other hother
    rcases b.failing_save_cases f s key blob with he | ⟨e, he⟩
    · rw [he]
      exact h.save s key blob other hother
    · rw [he]
  · intro s key other hother
    rcases b.failing_remove_cases f s key with he | ⟨e, he⟩
    · rw [he]
      exact h.remove s key other hother
    · rw [he]

namespace Interleaving

open Enrollment (Response)

variable {m : Manager} {σ : Type} {b : Backing σ} {view : σ → String → Option String} {cipher : Cipher}

/-! ## Managers that share a store -/

/-- A manager, and where it stands. -/
structure Member (σ : Type) where
  manager : Manager
  state : State manager σ

/-- Managers and the store that they share. -/
structure Fleet (σ : Type) where
  store : σ
  members : List (Member σ)

/-- Something that is done: a manager is started over the store, with the common cipher or without persistence, or one
of the managers makes a move. A restart starts a manager and leaves the former one without further moves. -/
inductive Act where
  | found (config : Config) (detector : Challenge.Detector) (persists : Bool) (nonces : Nonces) (sized : nonces.Sized)
  | move (k : Nat) (move : Move)

namespace Fleet

/-- No managers yet. -/
def empty (store : σ) : Fleet σ := ⟨store, []⟩

/-- The managers after something was done. -/
def act (b : Backing σ) (cipher : Cipher) (f : Fleet σ) : Act → Fleet σ
  | .found config detector persists nonces _ =>
    { f with members := f.members ++ [⟨⟨config, detector, if persists then some cipher else none⟩, .new f.store nonces⟩] }
  | .move k move =>
    match f.members[k]? with
    | none => f
    | some ⟨m, s⟩ =>
      let s := ({ s with store := f.store } : State m σ).step b move
      ⟨s.store, f.members.set k ⟨m, s⟩⟩

/-- A manager that is there makes its move. -/
theorem act_move {f : Fleet σ} {k : Nat} {m : Manager} {s : State m σ} (hk : f.members[k]? = some ⟨m, s⟩)
    (move : Move) : f.act b cipher (.move k move) =
      ⟨(({ s with store := f.store } : State m σ).step b move).store,
        f.members.set k ⟨m, ({ s with store := f.store } : State m σ).step b move⟩⟩ := by
  simp only [act, hk]

/-- The managers after any number of acts. -/
def run (b : Backing σ) (cipher : Cipher) (f : Fleet σ) (acts : List Act) : Fleet σ := acts.foldl (act b cipher) f

@[simp] theorem run_nil (f : Fleet σ) : f.run b cipher [] = f := rfl

@[simp] theorem run_cons (f : Fleet σ) (act : Act) (acts : List Act) :
    f.run b cipher (act :: acts) = (f.act b cipher act).run b cipher acts := rfl

theorem run_append (f : Fleet σ) (acts more : List Act) :
    f.run b cipher (acts ++ more) = (f.run b cipher acts).run b cipher more := List.foldl_append

/-- A credential was issued to an exchange of one of the managers. -/
def Vouched (f : Fleet σ) (c : Credential) : Prop :=
  ∃ member ∈ f.members, ∃ i, Issued member.manager member.state.history i c

end Fleet

/-! ## One manager -/

/-- What holds of a manager whatever the store has come to. -/
structure Regular (s : State m σ) : Prop where
  guarded : Guarded s
  traced : Traced s
  opens : Opens s
  told : Told s

namespace Regular

variable {s s' : State m σ}

theorem new (store : σ) {nonces : Nonces} (hn : nonces.Sized) : Regular (State.new store nonces : State m σ) := by
  refine ⟨Guarded.new store nonces, Traced.new store nonces, Opens.new store hn, ?_⟩
  intro k hd h hh
  cases hh

theorem change (r : Regular s) {move : Move} (h : State.Change b s move s') : Regular s' where
  guarded := r.guarded.change h
  traced := r.traced.change r.guarded h
  opens := r.opens.change r.guarded r.traced h
  told := r.told.change r.guarded h

/-- The store may be changed by others. -/
theorem withStore (r : Regular s) (store : σ) : Regular ({ s with store } : State m σ) where
  guarded := r.guarded.withStore store
  traced := ⟨r.traced.known, r.traced.ordered, r.traced.live, r.traced.resolved⟩
  opens := ⟨r.opens.sized, r.opens.waiting, r.opens.saved⟩
  told := r.told

end Regular

/-- A header that a future newly resolves with is the newest event. -/
theorem State.Change.resolved_new {s s' : State m σ} {move : Move} (h : State.Change b s move s') {k : Nat}
    {hd : Option String} (hr : .resolved k (.ok hd) ∈ s'.history) (hn : .resolved k (.ok hd) ∉ s.history) :
    ∃ past, s'.history = .resolved k (.ok hd) :: past := by
  cases h with
  | still => exact absurd hr hn
  | begins _ _ => exact absurd (by simpa [State.add] using hr) hn
  | refuses _ => exact absurd (by simpa [State.add] using hr) hn
  | asksClear => exact absurd (by simpa [State.add] using hr) hn
  | asksRestore => exact absurd (by simpa [State.add] using hr) hn
  | performs _ => exact absurd (by simpa [State.perform] using hr) hn
  | aborts _ _ => exact absurd hr hn
  | drops _ => exact absurd (by simpa [State.abandon] using hr) hn
  | cutsOff _ _ => exact absurd (by simpa using hr) hn
  | @polls i now f run _ _ _ =>
    obtain ⟨p, s₁⟩ := run
    cases p with
    | waiting stage => exact absurd (by simpa [State.settle] using hr) hn
    | finished o =>
      simp only [State.settle, List.mem_cons] at hr ⊢
      rcases hr with hnew | hran | hold
      · exact ⟨_, by rw [hnew]⟩
      · cases hran
      · exact absurd hold hn

/-- What a manager shows, or has loaded, is as it should be: the credential in its slot, the entry that a restore has
found, and the header that a future has resolved with. -/
structure Shows (V : Credential → Prop) (s : State m σ) : Prop where
  slot : ∀ c, s.slot.credential = some c → V c
  loaded : ∀ j f n blob c, s.futures j = some f → f.phase = .answered (.loading n) (Except.ok (some blob)) →
    m.revealed (some blob) = .ok (some c) → V c
  told : ∀ k hd, .resolved k (.ok (some hd)) ∈ s.history → ∃ c, V c ∧ c.headerValue = hd

/-- What opens under any key is as it should be. -/
def Trusted (view : σ → String → Option String) (cipher : Cipher) (V : Credential → Prop) (store : σ) : Prop :=
  ∀ key blob c, view store key = some blob → cipher.discloseValue Credential.codec blob = .ok c → V c

/-- A manager has no other cipher. -/
def Keyed (cipher : Cipher) (m : Manager) : Prop := ∀ cipher', m.cipher = some cipher' → cipher' = cipher

/-- What a manager reveals is what the cipher opens. -/
theorem Keyed.disclosed (hm : Keyed cipher m) {blob : String} {c : Credential}
    (hrev : m.revealed (some blob) = .ok (some c)) : cipher.discloseValue Credential.codec blob = .ok c := by
  cases hcipher : m.cipher with
  | none =>
    unfold Manager.revealed at hrev
    rw [hcipher] at hrev
    cases hrev
  | some cipher' =>
    obtain rfl := hm cipher' hcipher
    rw [Manager.revealed_some hcipher] at hrev
    cases hd : cipher'.discloseValue Credential.codec blob with
    | error e =>
      rw [hd] at hrev
      cases hrev
    | ok c' =>
      rw [hd] at hrev
      cases hrev
      rfl

section Changes

variable {s s' : State m σ} {V V' : Credential → Prop}

theorem Shows.mono (S : Shows V s) (hV : ∀ c, V c → V' c) : Shows V' s where
  slot c hc := hV c (S.slot c hc)
  loaded j f n blob c hf hp hrev := hV c (S.loaded j f n blob c hf hp hrev)
  told k hd hr := by
    obtain ⟨c, hc, hheader⟩ := S.told k hd hr
    exact ⟨c, hV c hc, hheader⟩

theorem Trusted.mono {store : σ} (T : Trusted view cipher V store) (hV : ∀ c, V c → V' c) :
    Trusted view cipher V' store := fun key blob c hv hd => hV c (T key blob c hv hd)

/-- What a change brings into the slot was there, has been loaded, or was issued. -/
theorem Shows.change_slot (r : Regular s) (S : Shows V s) {move : Move} (h : State.Change b s move s')
    (hV : ∀ c, V c → V' c) (hI : ∀ i c, Issued m s'.history i c → V' c) {c : Credential}
    (hc : s'.slot.credential = some c) : V' c := by
  obtain ⟨-, hold | ⟨j, f, now, x, hf, -, -, hy, hran⟩ | ⟨j, f, blob, hf, hp, hrev⟩⟩ :=
    h.credential_cases r.guarded hc
  · exact hV c (S.slot c hold)
  · exact hI j c (r.traced.issued_of_yield hf hy hran)
  · exact hV c (S.loaded j f _ blob c hf hp hrev)

/-- What a change shows was shown, was loaded from the store, or was issued. -/
theorem Shows.change (r : Regular s) (hm : Keyed cipher m) (hb : b.Lawful view) (T : Trusted view cipher V s.store)
    (S : Shows V s) {move : Move} (h : State.Change b s move s') (hV : ∀ c, V c → V' c)
    (hI : ∀ i c, Issued m s'.history i c → V' c) : Shows V' s' where
  slot _ hc := S.change_slot r h hV hI hc
  loaded j f n blob c hf hp hrev := by
    obtain ⟨phase, aborted⟩ := f
    have ha : Arrival b s s' j phase := h.arrival r.guarded hf
    cases ha with
    | made _ _ _ => cases hp
    | ran _ _ _ => cases hp
    | @stays f hl _ => exact hV c (S.loaded j f n blob c hl hp hrev)
    | @performed w stage aborted' hl _ =>
      injection hp with hstage hanswer
      subst hstage
      have hview := view_load hb w s.store n (eq_of_heq hanswer)
      exact hV c (T _ blob c hview.symm (hm.disclosed hrev))
  told k hd hr := by
    by_cases hold : .resolved k (.ok (some hd)) ∈ s.history
    · obtain ⟨c, hc, hheader⟩ := S.told k hd hold
      exact ⟨c, hV c hc, hheader⟩
    · obtain ⟨past, hh⟩ := h.resolved_new hr hold
      obtain ⟨c, hc, hheader⟩ := (r.told.change r.guarded h) k hd past hh
      exact ⟨c, S.change_slot r h hV hI hc, hheader⟩

/-- A call leaves the entries under other keys as they were. -/
theorem view_apart (ha : b.Apart view) (w : Weather) (store : σ) (stage : Stage) {key : String}
    (hkey : key ≠ m.config.storageKey) :
    view ((w.world b store).answer (stage.call m)).2 key = view store key := by
  have hremove := (ha.failing w.faults).remove store m.config.storageKey key hkey
  cases stage with
  | saving x c blob => exact (ha.failing w.faults).save store m.config.storageKey blob key hkey
  | removingOld x => exact hremove
  | cleaningUp x e => exact hremove
  | removing => exact hremove
  | discarding e => exact hremove
  | fetchingNonce x => rfl
  | enrolling x request => rfl
  | loading n => rfl

/-- What a change leaves in the store was there, or it is the envelope of a credential that was issued. -/
theorem Trusted.change (r : Regular s) (hm : Keyed cipher m) (hw : b.Tame view) (ha : b.Apart view)
    (T : Trusted view cipher V s.store) {move : Move} (h : State.Change b s move s') (hV : ∀ c, V c → V' c)
    (hI : ∀ i c, Issued m s'.history i c → V' c) : Trusted view cipher V' s'.store := by
  intro key blob c hv hd
  rcases h.store_cases with ⟨hst, -⟩ | ⟨j, w, stage, aborted, hf, rfl⟩
  · rw [hst] at hv
    exact hV c (T key blob c hv hd)
  by_cases hkey : key = m.config.storageKey
  · subst hkey
    rcases view_tame hw w s.store stage with ⟨x, c', blob', rfl, hsaved⟩ | hgone | hstill
    · obtain rfl : blob = blob' := Option.some.inj (hv.symm.trans hsaved)
      obtain rfl : c = c' := by
        have hopens := hm.disclosed (r.opens.waiting j _ x c' blob hf rfl)
        exact Except.ok.inj (hd.symm.trans hopens)
      have hissued := ((r.traced.live j _ hf).issued_of_saving rfl).1
      exact hI j c (hissued.of_own.mono h.history_suffix)
    · cases hv.symm.trans hgone
    · exact hV c (T _ blob c (hstill.symm.trans hv) hd)
  · exact hV c (T key blob c ((view_apart ha w s.store stage hkey).symm.trans hv) hd)

end Changes

/-! ## All of them -/

namespace Fleet

variable {f : Fleet σ}

/-- Everything that a fleet shows, or that opens in its store, was issued to an exchange of one of its managers. -/
structure Sound (view : σ → String → Option String) (cipher : Cipher) (f : Fleet σ) : Prop where
  regular : ∀ member ∈ f.members, Regular member.state
  keyed : ∀ member ∈ f.members, Keyed cipher member.manager
  shows : ∀ member ∈ f.members, Shows f.Vouched member.state
  trusted : Trusted view cipher f.Vouched f.store

theorem Sound.empty {store : σ} (hempty : ∀ key, view store key = none) : (Fleet.empty store).Sound view cipher := by
  refine ⟨?_, ?_, ?_, ?_⟩
  · intro member hmem
    cases hmem
  · intro member hmem
    cases hmem
  · intro member hmem
    cases hmem
  · intro key blob c hv
    cases hv.symm.trans (hempty key)

/-- A manager that is started shows nothing, and leaves the store as it is. -/
theorem Sound.found (S : f.Sound view cipher) (config : Config) (detector : Challenge.Detector) (persists : Bool)
    {nonces : Nonces} (hn : nonces.Sized) :
    (f.act b cipher (.found config detector persists nonces hn)).Sound view cipher := by
  have hvouched : ∀ c, f.Vouched c → (f.act b cipher (.found config detector persists nonces hn)).Vouched c := by
    rintro c ⟨member, hmem, hissued⟩
    exact ⟨member, List.mem_append_left _ hmem, hissued⟩
  refine ⟨?_, ?_, ?_, S.trusted.mono hvouched⟩
  · intro member hmem
    rcases List.mem_append.1 hmem with hold | hnew
    · exact S.regular member hold
    · obtain rfl := List.mem_singleton.1 hnew
      exact Regular.new f.store hn
  · intro member hmem
    rcases List.mem_append.1 hmem with hold | hnew
    · exact S.keyed member hold
    · obtain rfl := List.mem_singleton.1 hnew
      intro cipher' hcipher
      cases persists with
      | true => exact (Option.some.inj hcipher).symm
      | false => cases hcipher
  · intro member hmem
    rcases List.mem_append.1 hmem with hold | hnew
    · exact (S.shows member hold).mono hvouched
    · obtain rfl := List.mem_singleton.1 hnew
      refine ⟨?_, ?_, ?_⟩
      · intro c hc
        cases hc
      · intro j g n blob c hg
        cases hg
      · intro k hd hr
        cases hr

/-- What was issued before a manager has made a move still was. -/
theorem Vouched.set {k : Nat} {member member' : Member σ} {store : σ} (hk : f.members[k]? = some member)
    (hI : ∀ i c, Issued member.manager member.state.history i c → Issued member'.manager member'.state.history i c)
    {c : Credential} (hc : f.Vouched c) : (⟨store, f.members.set k member'⟩ : Fleet σ).Vouched c := by
  obtain ⟨other, hmem, i, hissued⟩ := hc
  obtain ⟨j, hj⟩ := List.mem_iff_getElem?.1 hmem
  have hlt : k < f.members.length := (List.getElem?_eq_some_iff.1 hk).1
  by_cases hjk : k = j
  · subst hjk
    obtain rfl := Option.some.inj (hj.symm.trans hk)
    exact ⟨member', List.mem_set hlt member', i, hI i c hissued⟩
  · refine ⟨other, List.mem_iff_getElem?.2 ⟨j, ?_⟩, i, hissued⟩
    rw [List.getElem?_set_ne hjk]
    exact hj

/-- A move of one manager keeps what all of them show, and what opens in the store, to what was issued. -/
theorem Sound.move (hb : b.Lawful view) (hw : b.Tame view) (ha : b.Apart view) (S : f.Sound view cipher) (k : Nat)
    (move : Move) : (f.act b cipher (.move k move)).Sound view cipher := by
  cases hk : f.members[k]? with
  | none =>
    have hstill : f.act b cipher (.move k move) = f := by simp only [act, hk]
    rw [hstill]
    exact S
  | some member =>
    obtain ⟨m, s⟩ := member
    rw [act_move hk]
    have hmem : ⟨m, s⟩ ∈ f.members := List.mem_of_getElem? hk
    have hlt : k < f.members.length := (List.getElem?_eq_some_iff.1 hk).1
    have hm : Keyed cipher m := S.keyed _ hmem
    have r : Regular ({ s with store := f.store } : State m σ) := (S.regular _ hmem).withStore f.store
    have hshows : Shows f.Vouched ({ s with store := f.store } : State m σ) :=
      ⟨(S.shows _ hmem).slot, (S.shows _ hmem).loaded, (S.shows _ hmem).told⟩
    have h := State.step_change b ({ s with store := f.store } : State m σ) move
    generalize State.step b ({ s with store := f.store } : State m σ) move = s' at h ⊢
    have hV : ∀ c, f.Vouched c → (⟨s'.store, f.members.set k ⟨m, s'⟩⟩ : Fleet σ).Vouched c := by
      intro c hc
      refine Vouched.set hk ?_ hc
      intro i c hissued
      exact hissued.mono h.history_suffix
    have hI : ∀ i c, Issued m s'.history i c → (⟨s'.store, f.members.set k ⟨m, s'⟩⟩ : Fleet σ).Vouched c := by
      intro i c hissued
      exact ⟨⟨m, s'⟩, List.mem_set hlt _, i, hissued⟩
    refine ⟨?_, ?_, ?_, S.trusted.change r hm hw ha h hV hI⟩
    · intro member hmem'
      rcases List.mem_or_eq_of_mem_set hmem' with hold | rfl
      · exact S.regular member hold
      · exact r.change h
    · intro member hmem'
      rcases List.mem_or_eq_of_mem_set hmem' with hold | rfl
      · exact S.keyed member hold
      · exact hm
    · intro member hmem'
      rcases List.mem_or_eq_of_mem_set hmem' with hold | rfl
      · exact (S.shows member hold).mono hV
      · exact hshows.change r hm hb S.trusted h hV hI

/-- Whatever is done, everything that is shown, or that opens in the store, was issued. -/
theorem Sound.run (hb : b.Lawful view) (hw : b.Tame view) (ha : b.Apart view) (S : f.Sound view cipher)
    (acts : List Act) : (f.run b cipher acts).Sound view cipher := by
  induction acts generalizing f with
  | nil => exact S
  | cons act acts ih =>
    refine ih ?_
    cases act with
    | found config detector persists nonces hn => exact S.found config detector persists hn
    | move k move => exact S.move hb hw ha k move

end Fleet

/-! ## What every check was passed by -/

/-- A credential that an exchange of a manager has made of the answer to its request, which passed every check at the
time. Its identity has the client identifier of a certificate that was valid for the enrolled key then, with a character
that is not blank and without a comma; and its header has the configured scheme and a token that is not blank. -/
structure Vetted (m : Manager) (h : List Event) (i : Nat) (x : Exchange) (r : Response) (now : Instant)
    (cert : Certificate) (c : Credential) : Prop where
  called : .called i (.exchange x) ∈ h
  answered : ∃ request, .performed i (.enroll request) (Except.ok r) ∈ h ∧
    .ran i (.waiting (.enrolling x request)) now ∈ h
  accepted : m.config.accept x.params r now = .ok c
  trustworthy : Trustworthy m.config x.params r now cert
  valid : cert.isValidAgainst x.params.publicKey now = true
  id : c.identity.id = cert.clientId m.config.uidSelection
  legible : ',' ∉ c.identity.id.toList ∧ ∃ ch ∈ c.identity.id.toList, Text.isBlank ch = false
  header : ∃ token, (∃ ch ∈ token.toList, Text.isBlank ch = false) ∧ c.headerValue = m.config.headerValue token

/-- What was issued has passed every check. -/
theorem Issued.vetted {h : List Event} {i : Nat} {c : Credential} (hi : Issued m h i c) :
    ∃ x r now cert, Vetted m h i x r now cert c := by
  obtain ⟨x, request, r, now, hcalled, hperformed, hran, haccept⟩ := hi
  obtain ⟨cert, htrust, rfl⟩ := (Config.accept_eq_ok_iff _ _ _ _ _).1 haccept
  obtain ⟨hcomma, hlegible⟩ := ClientId.ofSubject_legible m.config.uidSelection cert.subject.render
  refine ⟨x, r, now, cert, hcalled, ⟨request, hperformed, hran⟩, haccept, htrust, htrust.valid, rfl, ?_, ?_⟩
  · exact ⟨hcomma, hlegible htrust.named⟩
  · refine ⟨Text.trim r.accessToken, Text.exists_not_blank_trim htrust.token, ?_⟩
    unfold Credential.ofEnrollment Config.headerValue
    by_cases hscheme : m.config.headerScheme = ""
    · rw [if_pos hscheme, if_pos (String.isEmpty_iff.2 hscheme)]
    · rw [if_neg hscheme, if_neg fun he => hscheme (String.isEmpty_iff.1 he)]

/-- A credential was made by an exchange of one of the managers, and has passed every check. -/
def Fleet.Validated (f : Fleet σ) (c : Credential) : Prop :=
  ∃ member ∈ f.members, ∃ i x r now cert, Vetted member.manager member.state.history i x r now cert c

theorem Fleet.Vouched.validated {f : Fleet σ} {c : Credential} (hc : f.Vouched c) : f.Validated c := by
  obtain ⟨member, hmem, i, hissued⟩ := hc
  exact ⟨member, hmem, i, hissued.vetted⟩

/-- Every visible credential was validated. Let managers with one cipher, or without persistence, be started over a store
that is empty at first and that nobody else writes, at any time and in any number, and let each of them go through any
interleaving. Whatever one of them shows then, as the header or the identity of its slot or as the header that a future
has resolved with, is that of a credential which an exchange of one of them has made, and which has passed every
check. -/
theorem visible_credentials_validated (hb : b.Lawful view) (hw : b.Tame view) (ha : b.Apart view) (cipher : Cipher)
    (store : σ) (hempty : ∀ key, view store key = none) (acts : List Act) :
    let f : Fleet σ := (Fleet.empty store).run b cipher acts
    ∀ member ∈ f.members,
      (∀ hd, member.state.slot.header = some hd → ∃ c, f.Validated c ∧ c.headerValue = hd) ∧
      (∀ who, member.state.slot.identity = some who → ∃ c, f.Validated c ∧ c.identity = who) ∧
      (∀ c, member.state.slot.credential = some c → f.Validated c) ∧
      ∀ k hd, .resolved k (.ok (some hd)) ∈ member.state.history → ∃ c, f.Validated c ∧ c.headerValue = hd := by
  intro f member hmem
  have S : f.Sound view cipher := (Fleet.Sound.empty hempty).run hb hw ha acts
  have hshows : Shows f.Vouched member.state := S.shows member hmem
  refine ⟨?_, ?_, ?_, ?_⟩
  · intro hd hheader
    obtain ⟨c, hc, rfl⟩ := Option.map_eq_some_iff.1 hheader
    exact ⟨c, (hshows.slot c hc).validated, rfl⟩
  · intro who hidentity
    obtain ⟨c, hc, rfl⟩ := Option.map_eq_some_iff.1 hidentity
    exact ⟨c, (hshows.slot c hc).validated, rfl⟩
  · intro c hc
    exact (hshows.slot c hc).validated
  · intro k hd hr
    obtain ⟨c, hc, hheader⟩ := hshows.told k hd hr
    exact ⟨c, hc.validated, hheader⟩

/-- A manager that is left to itself goes through an interleaving of its own. -/
theorem Fleet.run_moves {f : Fleet σ} {k : Nat} {s : State m σ} (hk : f.members[k]? = some ⟨m, s⟩)
    (hs : s.store = f.store) (moves : List Move) :
    f.run b cipher (moves.map (.move k)) = ⟨(s.run b moves).store, f.members.set k ⟨m, s.run b moves⟩⟩ := by
  induction moves generalizing f s with
  | nil =>
    have hset : f.members.set k ⟨m, s⟩ = f.members := by
      obtain ⟨hlt, hget⟩ := List.getElem?_eq_some_iff.1 hk
      rw [← hget]
      exact List.set_getElem_self hlt
    rw [List.map_nil, Fleet.run_nil, State.run_nil, hset, hs]
  | cons move moves ih =>
    have hover : ({ s with store := f.store } : State m σ) = s := by rw [← hs]
    have hlt : k < f.members.length := (List.getElem?_eq_some_iff.1 hk).1
    rw [List.map_cons, Fleet.run_cons, Fleet.act_move hk, hover]
    refine (ih (List.getElem?_set_self hlt) rfl).trans ?_
    rw [List.set_set, State.run_cons]

/-- A manager goes through an interleaving of its own, and then another one does that is started over what it left. -/
theorem Fleet.run_succeeded (cipher : Cipher) (store : σ) (config : Config) (detector : Challenge.Detector)
    {nonces nonces' : Nonces} (hn : nonces.Sized) (hn' : nonces'.Sized) (moves more : List Move) :
    let m : Manager := ⟨config, detector, some cipher⟩
    let s : State m σ := (State.new store nonces).run b moves
    let s' : State m σ := (State.new s.store nonces').run b more
    (Fleet.empty store).run b cipher (.found config detector true nonces hn :: moves.map (.move 0) ++
      .found config detector true nonces' hn' :: more.map (.move 1)) = ⟨s'.store, [⟨m, s⟩, ⟨m, s'⟩]⟩ := by
  intro m s s'
  have hfirst : (Fleet.empty store).run b cipher (.found config detector true nonces hn :: moves.map (.move 0)) =
      ⟨s.store, [⟨m, s⟩]⟩ := by
    rw [Fleet.run_cons]
    exact Fleet.run_moves (k := 0) (s := State.new store nonces) rfl rfl moves
  have hsecond : (⟨s.store, [⟨m, s⟩]⟩ : Fleet σ).run b cipher
      (.found config detector true nonces' hn' :: more.map (.move 1)) = ⟨s'.store, [⟨m, s⟩, ⟨m, s'⟩]⟩ := by
    rw [Fleet.run_cons]
    exact Fleet.run_moves (k := 1) (s := State.new s.store nonces') rfl rfl more
  rw [Fleet.run_append, hfirst, hsecond]

/-- The exchange that a manager over the store in memory begins while none is in flight: driven for five rounds against a
service whose answers are accepted, it leaves the envelope of its credential. -/
theorem store_of_accepted {s : State m Entries} (hm : m.cipher = some cipher) {p : Enrollment.Params}
    (hp : p.problem? = none) (hidle : s.slot.inFlight = none) {nonce : String} {r : Response} {now : Instant}
    {c : Credential} (ha : m.config.accept p r now = .ok c) :
    let w : Weather := ⟨.ok nonce, .ok r, {}⟩
    (s.run .memory (.obtain p :: drive s.made (List.replicate 5 (w, now)))).store =
      (s.store.erase m.config.storageKey).insert m.config.storageKey
        (cipher.encloseValue Credential.codec s.nonces c).1 := by
  intro w
  have hremove : ∀ store key, (Backing.memory.failing {}).remove store key = (.ok (), store.erase key) :=
    fun _ _ => rfl
  have hsave : ∀ store key blob, (Backing.memory.failing {}).save store key blob = (.ok (), store.insert key blob) :=
    fun _ _ _ => rfl
  rw [State.run_cons, State.step_obtain_of_idle hp hidle]
  simp [drive, List.replicate, State.add, State.step, State.perform, State.poll, State.settle, State.scene, Phase.run?,
    Phase.task, Task.start, Manager.startExchange, hm, Stage.call, Weather.world, World.answer, w, Stage.resume, ha,
    Manager.keep, Manager.cache, Slot.isCurrent, Scene.recordRemoval, hremove, hsave]

/-- Over the store in memory, a manager obtains a credential, and another one that is started over what it left restores
that credential. -/
theorem Fleet.handed_over (cipher : Cipher) (config : Config) (detector : Challenge.Detector) {p : Enrollment.Params}
    (hp : p.problem? = none) (nonce : String) {r : Response} {now : Instant} {c : Credential}
    (ha : config.accept p r now = .ok c) :
    let w : Weather := ⟨.ok nonce, .ok r, {}⟩
    let f : Fleet Entries := (Fleet.empty .empty).run .memory cipher
      (.found config detector true (.ofList []) Nonces.sized_ofList_nil ::
        (.obtain p :: drive 0 (List.replicate 5 (w, now))).map (.move 0) ++
        .found config detector true (.ofList []) Nonces.sized_ofList_nil ::
        (.restore :: drive 0 [(w, now), (w, now)]).map (.move 1))
    ∃ member, f.members[1]? = some member ∧ member.state.slot.credential = some c ∧
      .resolved 0 (.ok (some c.headerValue)) ∈ member.state.history := by
  intro w f
  let m : Manager := ⟨config, detector, some cipher⟩
  let s : State m Entries := (State.new .empty (.ofList [])).run .memory
    (.obtain p :: drive 0 (List.replicate 5 (w, now)))
  have hf : f = _ := Fleet.run_succeeded (b := .memory) cipher Entries.empty config detector Nonces.sized_ofList_nil
    Nonces.sized_ofList_nil (.obtain p :: drive 0 (List.replicate 5 (w, now))) (.restore :: drive 0 [(w, now), (w, now)])
  have hstore : s.store = (Entries.empty.erase m.config.storageKey).insert m.config.storageKey
      (cipher.encloseValue Credential.codec (.ofList []) c).1 :=
    store_of_accepted rfl hp rfl ha
  have hrev : m.revealed (s.store.get? m.config.storageKey) = .ok (some c) := by
    rw [hstore, Entries.get?_insert, if_pos rfl]
    exact Manager.revealed_encloseValue rfl Nonces.sized_ofList_nil c
  have hload : ((w.world .memory s.store).answer (.load m.config.storageKey)).1 =
      .ok (s.store.get? m.config.storageKey) := rfl
  have hrestored := @State.restored_of_load m Entries .memory rfl s.store (.ofList []) (w, now) (w, now) _ _ hload hrev
  rw [State.restored] at hrestored
  obtain ⟨hslot, hhistory⟩ := hrestored
  have hmember : f.members[1]? = some ⟨m, (State.new s.store (.ofList [])).run .memory
      (.restore :: drive 0 [(w, now), (w, now)])⟩ := by
    rw [hf]
    rfl
  refine ⟨_, hmember, hslot, ?_⟩
  rw [hhistory]
  exact List.mem_cons_self

/-- A manager obtains a credential, and another one that is started over what it left restores it. -/
theorem visible_credentials_validated_restored :
    let cipher : Cipher := .ofPassword .aes256Gcm "password"
    let p : Enrollment.Params := { publicKey := [4] }
    let r : Response :=
      ⟨"MFswTgIBATAFBgMqAwQwADAeFw03MDAxMDEwMDAwMDBaFw03MDAxMDIwMDAwMDBaMBMxETAPBgoJkiaJk/IsZAEBDAFhMAswBQYDKgMEAwIABDAFBgMqAwQDAgAB", "t", none⟩
    let w : Weather := ⟨.ok "nonce", .ok r, {}⟩
    let f : Fleet Entries := (Fleet.empty .empty).run .memory cipher
      (.found {} .never true (.ofList []) Nonces.sized_ofList_nil ::
        (.obtain p :: drive 0 (List.replicate 5 (w, ⟨0, 0⟩))).map (.move 0) ++
        .found {} .never true (.ofList []) Nonces.sized_ofList_nil ::
        (.restore :: drive 0 [(w, ⟨0, 0⟩), (w, ⟨0, 0⟩)]).map (.move 1))
    ∃ member, f.members[1]? = some member ∧
      .resolved 0 (.ok (some "Bearer t")) ∈ member.state.history ∧ member.state.slot.header = some "Bearer t" ∧
      ∃ c, f.Validated c ∧ c.headerValue = "Bearer t" := by
  intro cipher p r w f
  have ha : Config.accept {} p r ⟨0, 0⟩ = .ok ⟨"Bearer t", 0, ⟨"a", "", ""⟩⟩ := Config.accept_client
  obtain ⟨member, hmember, hslot, hresolved⟩ := Fleet.handed_over cipher {} .never rfl "nonce" ha
  have hheader : member.state.slot.header = some "Bearer t" := by
    rw [Slot.header, hslot]
    rfl
  have hvalidated := (visible_credentials_validated Backing.memory_lawful Backing.memory_tame Backing.memory_apart cipher
    .empty (fun _ => rfl) _ member (List.mem_of_getElem? hmember)).1 _ hheader
  exact ⟨member, hmember, hresolved, hheader, hvalidated⟩

end Interleaving

end ClientAuth
