import ClientAuth.Proofs.Interleaving.Backed
import ClientAuth.Proofs.Interleaving.Enrolling
import ClientAuth.Proofs.Interleaving.SingleFlight

/-!
# What can be read off a manager

Where a slot stands is told from its guard, its generation and its credential, the header and the identity from the
credential alone. They agree, since a slot with a guard has no credential (`Vacant`): so it is obtaining exactly while an
exchange is wanted, cached exactly while it has a credential, and otherwise there is nothing to be read.
-/

namespace ClientAuth

namespace Slot

/-- A slot is cached if it has a credential and is not obtaining. -/
theorem state_eq_cached_iff (s : Slot) :
    s.state = .cached ↔ s.inFlight ≠ some s.generation ∧ ∃ c, s.credential = some c := by
  unfold state
  split
  · rename_i hwanted
    simp [hwanted]
  · rename_i hidle
    cases s.credential with
    | none => simp
    | some c => simp [hidle]

/-- A slot is obtaining if the exchange that holds the guard has begun last. -/
theorem state_eq_obtaining_iff (s : Slot) : s.state = .obtaining ↔ s.inFlight = some s.generation := by
  unfold state
  split
  · rename_i hwanted
    exact iff_of_true rfl hwanted
  · rename_i hidle
    refine iff_of_false ?_ hidle
    split <;> simp

theorem isSome_header (s : Slot) : s.header.isSome = s.credential.isSome := Option.isSome_map

theorem isSome_identity (s : Slot) : s.identity.isSome = s.credential.isSome := Option.isSome_map

end Slot

namespace Interleaving

variable {m : Manager} {σ : Type} {b : Backing σ}

/-- An exchange is on its way whose outcome is wanted: it holds the guard, and no clear has run since it began. -/
def Wanted (s : State m σ) : Prop :=
  ∃ i x, .called i (.exchange x) ∈ s.history ∧ s.guard? i = some x.ticket ∧
    ¬∃ j now, Before s.history (.called i (.exchange x)) (.ran j .clear now)

/-- A slot is obtaining exactly while the outcome of an exchange is wanted. -/
theorem obtaining_iff_wanted {s : State m σ} (g : Guarded s) (t : Timely s) :
    s.slot.state = .obtaining ↔ Wanted s := by
  rw [Slot.state_eq_obtaining_iff]
  constructor
  · intro hf
    obtain ⟨i, x, hx, hticket⟩ := g.holder _ hf
    have hcurrent : s.slot.isCurrent x.ticket = true := by
      rw [Slot.isCurrent, hticket, beq_self_eq_true]
    have hguard : s.guard? i = some x.ticket := by
      rw [State.guard?_eq, hx, Option.map_some]
    refine ⟨i, x, ((g.exchange_iff i x).1 hx).1, hguard, ?_⟩
    intro hcleared
    cases hcurrent.symm.trans ((t.exchange i x hx).2 hcleared)
  · rintro ⟨i, x, hcalled, hguard, hnone⟩
    have hx : s.exchange? i = some x := by
      refine (g.exchange_iff i x).2 ⟨hcalled, ?_⟩
      exact ((g.guard?_isSome_iff i).1 ⟨x.ticket, hguard⟩).2
    have hcurrent : s.slot.generation = x.ticket := by
      by_contra hother
      refine hnone ((t.exchange i x hx).1 ?_)
      rw [Slot.isCurrent, beq_eq_false_iff_ne]
      exact hother
    rw [hcurrent]
    exact g.held i x hx

/-- While the outcome of an exchange is wanted the slot has no credential. -/
theorem credential_of_obtaining {s : State m σ} (v : Vacant s) (h : s.slot.state = .obtaining) :
    s.slot.credential = none := v _ ((Slot.state_eq_obtaining_iff _).1 h)

/-- A slot is cached exactly while it has a credential. -/
theorem cached_iff_credential {s : State m σ} (v : Vacant s) :
    s.slot.state = .cached ↔ ∃ c, s.slot.credential = some c := by
  rw [Slot.state_eq_cached_iff]
  constructor
  · rintro ⟨-, hc⟩
    exact hc
  · rintro ⟨c, hc⟩
    refine ⟨?_, c, hc⟩
    intro hf
    cases hc.symm.trans (v _ hf)

/-- What observers of a manager read never disagrees, in any interleaving. The slot is cached exactly while there is a
header, and exactly while there is an identity, and both are those of the credential that it has. It is obtaining exactly while an
exchange holds the guard and no clear has run since that began, and then there is neither. Otherwise it has no
credential, and there is neither. -/
theorem observers_agree (b : Backing σ) (store : σ) (nonces : Nonces) (moves : List Move) :
    let s : State m σ := (State.new store nonces).run b moves
    (s.slot.state = .cached ↔ s.slot.header.isSome) ∧
    (s.slot.header.isSome ↔ s.slot.identity.isSome) ∧
    (s.slot.state = .cached → ∃ c : Credential, s.slot.credential = some c ∧
      s.slot.header = some c.headerValue ∧ s.slot.identity = some c.identity) ∧
    (s.slot.state = .obtaining ↔ ∃ i x, .called i (.exchange x) ∈ s.history ∧ s.guard? i = some x.ticket ∧
      ¬∃ j now, Before s.history (.called i (.exchange x)) (.ran j .clear now)) ∧
    (s.slot.state = .obtaining → s.slot.header = none ∧ s.slot.identity = none) ∧
    (s.slot.state ≠ .cached → s.slot.state ≠ .obtaining →
      s.slot.state = .noCredential ∧ s.slot.header = none ∧ s.slot.identity = none) := by
  intro s
  have g : Guarded s := Guarded.run b store nonces moves
  have t : Timely s := Timely.run b store nonces moves
  have v : Vacant s := Vacant.run b store nonces moves
  have hcached : s.slot.state = .cached ↔ ∃ c, s.slot.credential = some c := cached_iff_credential v
  have hnothing : s.slot.credential = none → s.slot.header = none ∧ s.slot.identity = none := by
    intro hnone
    rw [Slot.header, Slot.identity, hnone]
    exact ⟨rfl, rfl⟩
  refine ⟨?_, ?_, ?_, obtaining_iff_wanted g t, ?_, ?_⟩
  · rw [hcached, Slot.isSome_header, Option.isSome_iff_exists]
  · rw [Slot.isSome_header, Slot.isSome_identity]
  · intro h
    obtain ⟨c, hc⟩ := hcached.1 h
    rw [Slot.header, Slot.identity, hc]
    exact ⟨c, rfl, rfl, rfl⟩
  · intro h
    exact hnothing (credential_of_obtaining v h)
  · intro hnot hidle
    refine ⟨?_, hnothing ?_⟩
    · cases hs : s.slot.state with
      | noCredential => rfl
      | obtaining => exact absurd hs hidle
      | cached => exact absurd hs hnot
    · cases hc : s.slot.credential with
      | none => rfl
      | some c => exact absurd (hcached.2 ⟨c, hc⟩) hnot

/-- A new manager obtains a credential. At first there is nothing to be read, nor while the exchange is on its way; then
the header and the identity are those of the credential that was issued. -/
theorem observers_agree_obtained :
    let m : Manager := ⟨{}, .never, none⟩
    let p : Enrollment.Params := { publicKey := [4] }
    let r : Enrollment.Response :=
      ⟨"MFswTgIBATAFBgMqAwQwADAeFw03MDAxMDEwMDAwMDBaFw03MDAxMDIwMDAwMDBaMBMxETAPBgoJkiaJk/IsZAEBDAFhMAswBQYDKgMEAwIABDAFBgMqAwQDAgAB", "t", none⟩
    let w : Weather := ⟨.ok "nonce", .ok r, {}⟩
    let rounds : List (Weather × Instant) := [(w, ⟨0, 0⟩), (w, ⟨0, 0⟩), (w, ⟨0, 0⟩)]
    let slot (moves : List Move) : Slot := ((State.new .empty (.ofList []) : State m Entries).run .memory moves).slot
    ((slot []).state = .noCredential ∧ (slot []).header = none ∧ (slot []).identity = none) ∧
    ((slot [.obtain p]).state = .obtaining ∧
      (slot [.obtain p]).header = none ∧ (slot [.obtain p]).identity = none) ∧
    ((slot (.obtain p :: drive 0 rounds)).state = .cached ∧
      (slot (.obtain p :: drive 0 rounds)).header = some "Bearer t" ∧
      (slot (.obtain p :: drive 0 rounds)).identity = some ⟨"a", "", ""⟩) := by
  intro m p r w rounds slot
  let c : Credential := ⟨"Bearer t", 0, ⟨"a", "", ""⟩⟩
  have hagree := fun moves => observers_agree (m := m) .memory Entries.empty (.ofList []) moves
  refine ⟨?_, ?_, ?_⟩
  · exact (hagree []).2.2.2.2.2 nofun nofun
  · have hstate : (slot [.obtain p]).state = .obtaining := rfl
    exact ⟨hstate, (hagree [.obtain p]).2.2.2.2.1 hstate⟩
  · have hmade : (State.new .empty (.ofList []) : State m Entries).made = 0 := rfl
    have hrun := (run_of_accepted (b := .memory) (s := (State.new .empty (.ofList []) : State m Entries)) (w := w)
      (p := p) rfl rfl rfl rfl rfl Config.accept_client).2
    simp only [hmade, ← State.run_cons] at hrun
    have hslot : slot (.obtain p :: drive 0 rounds) = ⟨some c, none, 1⟩ := hrun
    have hstate : (slot (.obtain p :: drive 0 rounds)).state = .cached := by
      rw [hslot]
      rfl
    obtain ⟨c', hcredential, hheader, hidentity⟩ := (hagree (.obtain p :: drive 0 rounds)).2.2.1 hstate
    obtain rfl : c = c' := Option.some.inj ((congrArg Slot.credential hslot).symm.trans hcredential)
    exact ⟨hstate, hheader, hidentity⟩

end Interleaving

end ClientAuth
